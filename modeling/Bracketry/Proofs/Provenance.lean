import Bracketry.Proofs.Bookkeeping
import Bracketry.Proofs.Cursor
import Bracketry.Proofs.Recording

/-!
# Where addresses and values come from

A pass hands values and addresses from one operation to another, through a stack and across turns of conditionals. It makes up none
of them, and no conditional ever acts on an address of an earlier turn or of another conditional.

* `Asked.address?`, `Asked.value?` : what an operation is given; `addresses`, `values` : what operations have answered;
* `tested` : the conditionals that are open after some operations, and the address for which each was told to run;
* `Asked.Sourced` : an operation is given what operations before it have answered; `Sourced` : all operations on record are;
* `Pass.Accounted` : the invariant: the record accounts for everything on the stack;
* `Pass.hands_accounted`, `Pass.steps_accounted` are the statements for one token, `Pass.run_sourced` for all of them;
* `evaluate_sourced` : a whole evaluation, and each of its moments.
-/

namespace Bracketry

variable {σ V A : Type}

/-! ## What operations are given and what they answer -/

namespace Asked

def address? : Asked V A → Option A
  | applyBuiltin address _ | assign address _ | call _ address | resolve address _ | testLoop address _ | exitLoop address _ =>
    some address
  | _ => none

def value? : Asked V A → Option V
  | resolveAccessor value _ | assign _ value => some value
  | _ => none

def answeredAddress? : Asked V A → Option A
  | resolveAccessor _ answer => answer
  | _ => none

def answeredValue? : Asked V A → Option V
  | literal _ answer | parameter answer | resolve _ answer => answer
  | _ => none

def isOfLoop : Asked V A → Bool
  | enterLoop | testLoop _ _ | exitLoop _ _ => true
  | _ => false

/-- What an operation does to the open conditionals and their addresses. A conditional that is told to run has an address until it
is told to repeat. -/
def moves : Asked V A → List (Option A) → List (Option A)
  | enterLoop, opened => none :: opened
  | testLoop address (some .run), opened => some address :: opened.tail
  | exitLoop _ (some .again), opened => none :: opened.tail
  | testLoop _ (some .skip), opened | exitLoop _ (some .done), opened => opened.tail
  | _, opened => opened

theorem moves_of_isOfLoop {entry : Asked V A} (h : entry.isOfLoop = false) (opened : List (Option A)) :
    entry.moves opened = opened := by
  cases entry with
  | enterLoop => cases h
  | testLoop address answer => cases h
  | exitLoop address answer => cases h
  | _ => rfl

end Asked

def addresses (asked : List (Asked V A)) : List A := asked.filterMap Asked.answeredAddress?

def values (asked : List (Asked V A)) : List V := asked.filterMap Asked.answeredValue?

/-- The conditionals that are open after these operations, innermost first. Each has the address that its latest test was given, if
that one told it to run. -/
def tested (asked : List (Asked V A)) : List (Option A) := asked.foldr Asked.moves []

/-- An operation is given what those before it have answered. The end of a conditional is given the address of its latest test, and
a test comes before anything else is done in a turn. -/
structure Asked.Sourced (entry : Asked V A) (earlier : List (Asked V A)) : Prop where
  address : ∀ a ∈ entry.address?, a ∈ addresses earlier
  value : ∀ v ∈ entry.value?, v ∈ values earlier
  exit : ∀ a answer, entry = .exitLoop a answer → (tested earlier).head? = some (some a)
  test : ∀ a answer, entry = .testLoop a answer → (tested earlier).head? = some none

def Sourced (asked : List (Asked V A)) : Prop :=
  ∀ later entry earlier, asked = later ++ entry :: earlier → entry.Sourced earlier

section
variable {asked earlier later : List (Asked V A)} {entry : Asked V A}

theorem sourced_nil : Sourced ([] : List (Asked V A)) := by
  intro later entry earlier h
  simp at h

theorem sourced_cons (hentry : entry.Sourced asked) (h : Sourced asked) : Sourced (entry :: asked) := by
  intro later other earlier heq
  cases later with
  | nil =>
    obtain ⟨rfl, rfl⟩ := List.cons.inj heq
    exact hentry
  | cons last later => exact h later other earlier (List.cons.inj heq).2

theorem sourced_enterLoop : Asked.Sourced .enterLoop asked := ⟨nofun, nofun, nofun, nofun⟩

theorem mem_addresses_of_suffix (h : earlier <:+ later) {a : A} (ha : a ∈ addresses earlier) : a ∈ addresses later := by
  obtain ⟨new, rfl⟩ := h
  rw [addresses, List.filterMap_append]
  exact List.mem_append_right _ ha

theorem mem_values_of_suffix (h : earlier <:+ later) {v : V} (hv : v ∈ values earlier) : v ∈ values later := by
  obtain ⟨new, rfl⟩ := h
  rw [values, List.filterMap_append]
  exact List.mem_append_right _ hv

end

/-! ## Operations between the ends of conditionals -/

/-- The record has gone on, and the conditionals are as they were. -/
structure Continues (earlier later : List (Asked V A)) : Prop where
  suffix : earlier <:+ later
  tested : tested later = tested earlier
  sourced : Sourced later

namespace Continues
variable {earlier between later : List (Asked V A)}

theorem refl (h : Sourced earlier) : Continues earlier earlier := ⟨List.suffix_rfl, rfl, h⟩

theorem trans (h : Continues earlier between) (h' : Continues between later) : Continues earlier later :=
  ⟨h.suffix.trans h'.suffix, h'.tested.trans h.tested, h'.sourced⟩

theorem cons (h : Continues earlier later) {entry : Asked V A} (hloop : entry.isOfLoop = false)
    (haddress : ∀ a ∈ entry.address?, a ∈ addresses later) (hvalue : ∀ v ∈ entry.value?, v ∈ values later) :
    Continues earlier (entry :: later) where
  suffix := h.suffix.trans (List.suffix_cons entry later)
  tested := (Asked.moves_of_isOfLoop hloop _).trans h.tested
  sourced := by
    refine sourced_cons ⟨haddress, hvalue, ?_, ?_⟩ h.sourced
    · rintro a answer rfl
      cases hloop
    · rintro a answer rfl
      cases hloop

end Continues

/-! ## The record and the stack -/

def Entry.Known (asked : List (Asked V A)) : Entry V A → Prop
  | resolved value => value ∈ values asked
  | conditional (some address) => address ∈ addresses asked
  | _ => True

theorem Entry.Known.mono {earlier later : List (Asked V A)} (hsuffix : earlier <:+ later) {entry : Entry V A}
    (h : entry.Known earlier) : entry.Known later := by
  cases entry with
  | resolved value => exact mem_values_of_suffix hsuffix h
  | conditional accessor =>
    cases accessor with
    | none => trivial
    | some address => exact mem_addresses_of_suffix hsuffix h
  | _ => trivial

def Entry.accessor? : Entry V A → Option (Option A)
  | conditional accessor => some accessor
  | _ => none

def accessors (stack : List (Entry V A)) : List (Option A) := stack.filterMap Entry.accessor?

theorem accessors_append {entries : List (Entry V A)} (h : ∀ entry ∈ entries, entry.isMarker = false)
    (stack : List (Entry V A)) : accessors (entries ++ stack) = accessors stack := by
  have hnone : entries.filterMap Entry.accessor? = [] := by
    refine List.filterMap_eq_nil_iff.2 fun entry hentry => ?_
    have hmarker := h entry hentry
    cases entry with
    | conditional accessor => cases hmarker
    | _ => rfl
  rw [accessors, List.filterMap_append, hnone]
  rfl

/-- The record accounts for a pass: every operation on it is given what was answered before, it holds everything that the stack holds,
and it tells the open conditionals and their addresses. -/
structure Pass.Accounted (pass : Pass V A) (asked : List (Asked V A)) : Prop where
  sourced : Sourced asked
  known : ∀ entry ∈ pass.stack, entry.Known asked
  tested : tested asked = accessors pass.stack

namespace Pass
variable {asked : List (Asked V A)} {pass : Pass V A}

theorem Accounted.later (h : pass.Accounted asked) {later : List (Asked V A)} (hlater : Continues asked later) :
    pass.Accounted later where
  sourced := hlater.sourced
  known entry hentry := (h.known entry hentry).mono hlater.suffix
  tested := hlater.tested.trans h.tested

theorem Accounted.below (h : pass.Accounted asked) {above below : List (Entry V A)} (hstack : pass.stack = above ++ below)
    (hbelow : accessors below = accessors pass.stack) : Accounted { pass with stack := below } asked where
  sourced := h.sourced
  known entry hentry := h.known entry (hstack ▸ List.mem_append_right above hentry)
  tested := h.tested.trans hbelow.symm

theorem Accounted.push (h : pass.Accounted asked) {entry : Entry V A} (hentry : entry.Known asked)
    (haccessor : entry.accessor? = none) : (pass.push entry).Accounted asked where
  sourced := h.sourced
  known := List.forall_mem_cons.2 ⟨hentry, h.known⟩
  tested := h.tested.trans (List.filterMap_cons_none haccessor).symm

/-! ## Accessors and operands -/

section
variable (b : Backend σ V A) (program : Program)

theorem value_asks (hsourced : Sourced asked) {entry : Option V → Asked V A} (hloop : ∀ answer, (entry answer).isOfLoop = false)
    (haddress : ∀ answer, (entry answer).address? = none) (hvalue : ∀ answer, (entry answer).value? = none)
    (hanswer : ∀ v, (entry (some v)).answeredValue? = some v) (x : Action σ V) :
    (Recorded.note entry x).Asks asked (fun v later => Continues asked later ∧ v ∈ values later) Sourced := by
  have hnext : ∀ answer, Continues asked (entry answer :: asked) := fun answer =>
    (Continues.refl hsourced).cons (hloop answer) (by simp [haddress answer]) (by simp [hvalue answer])
  refine Action.asks_note (fun v => ⟨hnext (some v), ?_⟩) (hnext none).sourced
  exact List.mem_filterMap.2 ⟨_, List.mem_cons_self, hanswer v⟩

theorem literal_asks (hsourced : Sourced asked) (value : Int64) :
    (b.recorded.literal value).Asks asked (fun v later => Continues asked later ∧ v ∈ values later) Sourced :=
  value_asks hsourced (fun _ => rfl) (fun _ => rfl) (fun _ => rfl) (fun _ => rfl) (b.literal value)

theorem parameter_asks (hsourced : Sourced asked) :
    b.recorded.parameter.Asks asked (fun v later => Continues asked later ∧ v ∈ values later) Sourced :=
  value_asks hsourced (fun _ => rfl) (fun _ => rfl) (fun _ => rfl) (fun _ => rfl) b.parameter

theorem accessor_asks (hsourced : Sourced asked) {entry : Entry V A} (hentry : entry.Known asked) :
    (accessor b.recorded entry).Asks asked (fun a later => Continues asked later ∧ a ∈ addresses later) Sourced := by
  -- A value that is known on the way there becomes an address.
  have hresolve : ∀ value later, Continues asked later ∧ value ∈ values later →
      (b.recorded.resolveAccessor value).Asks later (fun a later => Continues asked later ∧ a ∈ addresses later) Sourced := by
    rintro value later ⟨hlater, hvalue⟩
    have hnext : ∀ answer, Continues asked (.resolveAccessor value answer :: later) := fun answer =>
      hlater.cons rfl nofun (by rintro v ⟨⟩; exact hvalue)
    exact Action.asks_note (fun a => ⟨hnext (some a), List.mem_cons_self⟩) (hnext none).sourced
  cases entry with
  | pending token =>
    cases token with
    | literal value => exact Action.asks_bind (literal_asks b hsourced value) hresolve
    | parameter => exact Action.asks_bind (parameter_asks b hsourced) hresolve
    | _ => exact Action.asks_bind (Q := fun _ _ => False) (Action.asks_fault hsourced) fun _ _ h => h.elim
  | resolved value => exact hresolve value asked ⟨.refl hsourced, hentry⟩
  | _ => exact Action.asks_bind (Q := fun _ _ => False) (Action.asks_fault hsourced) fun _ _ h => h.elim

theorem assign_asks (hsourced : Sourced asked) {a : A} (ha : a ∈ addresses asked) {value : V} (hvalue : value ∈ values asked) :
    (b.recorded.assign a value).Asks asked (fun _ later => Continues asked later) Sourced := by
  have hnext : Continues asked (.assign a value :: asked) :=
    (Continues.refl hsourced).cons rfl (by rintro _ ⟨⟩; exact ha) (by rintro _ ⟨⟩; exact hvalue)
  exact Action.asks_told _ (fun _ => hnext) hnext.sourced

theorem applyToken_asks (hsourced : Sourced asked) {a : A} (ha : a ∈ addresses asked) (token : Token) :
    (applyToken b.recorded program a token).Asks asked (fun _ later => Continues asked later) Sourced := by
  have hassign : ∀ value later, Continues asked later ∧ value ∈ values later →
      (b.recorded.assign a value).Asks later (fun _ later => Continues asked later) Sourced := by
    rintro value later ⟨hlater, hvalue⟩
    refine Action.asks_mono (fun _ _ h => hlater.trans h) (fun _ => id) ?_
    exact assign_asks b hlater.sourced (mem_addresses_of_suffix hlater.suffix ha) hvalue
  have hone : ∀ entry : Asked V A, entry.isOfLoop = false → entry.address? = some a → entry.value? = none →
      Continues asked (entry :: asked) := fun entry hloop haddress hvalue =>
    (Continues.refl hsourced).cons hloop (by simpa [haddress] using ha) (by simp [hvalue])
  cases token with
  | builtin op =>
    have hnext := hone (.applyBuiltin a op) rfl rfl rfl
    exact Action.asks_told _ (fun _ => hnext) hnext.sourced
  | literal value => exact Action.asks_bind (literal_asks b hsourced value) hassign
  | parameter => exact Action.asks_bind (parameter_asks b hsourced) hassign
  | identifier name =>
    change Action.Asks (if program.isApplication name then b.recorded.call name a else Action.fault (.unknownToken name)) _ _ _
    split
    · have hnext := hone (.call name a) rfl rfl rfl
      exact Action.asks_told _ (fun _ => hnext) hnext.sourced
    · exact Action.asks_fault hsourced
  | _ => exact Action.asks_fault hsourced

theorem applyOperand_asks (hsourced : Sourced asked) {a : A} (ha : a ∈ addresses asked) {entry : Entry V A}
    (hentry : entry.Known asked) :
    (applyOperand b.recorded program a entry).Asks asked (fun _ later => Continues asked later) Sourced := by
  cases entry with
  | pending token => exact applyToken_asks b program hsourced ha token
  | resolved value => exact assign_asks b hsourced ha hentry
  | void => exact Action.asks_pure (.refl hsourced)
  | _ => exact Action.asks_fault hsourced

theorem applyOperands_asks (hsourced : Sourced asked) {a : A} (ha : a ∈ addresses asked) {operands : List (Entry V A)}
    (hoperands : ∀ entry ∈ operands, entry.Known asked) :
    (operands.forM (applyOperand b.recorded program a)).Asks asked (fun _ later => Continues asked later) Sourced := by
  induction operands generalizing asked with
  | nil => exact Action.asks_pure (.refl hsourced)
  | cons entry operands ih =>
    obtain ⟨hentry, hrest⟩ := List.forall_mem_cons.1 hoperands
    refine Action.asks_bind (applyOperand_asks b program hsourced ha hentry) fun _ later hlater => ?_
    refine Action.asks_mono (fun _ _ h => hlater.trans h) (fun _ => id) ?_
    exact ih hlater.sourced (mem_addresses_of_suffix hlater.suffix ha) fun other hother =>
      (hrest other hother).mono hlater.suffix

theorem applied_asks (hsourced : Sourced asked) {operands : List (Entry V A)} (hoperands : ∀ entry ∈ operands, entry.Known asked) :
    (applied b.recorded program operands).Asks asked (fun value later => Continues asked later ∧ value ∈ values later) Sourced := by
  cases operands with
  | nil => exact Action.asks_fault hsourced
  | cons first operands =>
    obtain ⟨hfirst, hrest⟩ := List.forall_mem_cons.1 hoperands
    refine Action.asks_bind (accessor_asks b hsourced hfirst) fun a between ⟨hbetween, ha⟩ => ?_
    have happlied := applyOperands_asks b program hbetween.sourced ha fun entry hentry =>
      (hrest entry hentry).mono hbetween.suffix
    refine Action.asks_bind happlied fun _ later hlater => ?_
    have hnext : ∀ answer, Continues asked (.resolve a answer :: later) := fun answer =>
      (hbetween.trans hlater).cons rfl (by rintro _ ⟨⟩; exact mem_addresses_of_suffix hlater.suffix ha) nofun
    exact Action.asks_note (fun value => ⟨hnext _, List.mem_cons_self⟩) (hnext _).sourced

end

/-! ## One token -/

/-- An operation at the end of a conditional is written down, and the stack changes with it. -/
theorem Accounted.note (h : pass.Accounted asked) {entry : Asked V A} (hentry : entry.Sourced asked) {next : Pass V A}
    (hknown : ∀ other ∈ next.stack, other ∈ pass.stack ∨ other.Known (entry :: asked))
    (htested : entry.moves (accessors pass.stack) = accessors next.stack) : next.Accounted (entry :: asked) where
  sourced := sourced_cons hentry h.sourced
  known other hother := (hknown other hother).elim (fun hheld => (h.known other hheld).mono (List.suffix_cons _ _)) id
  tested := by
    rw [← htested, ← h.tested]
    rfl

/-- A test may be asked for an address that has been answered where a conditional has none. -/
theorem Accounted.testLoop (h : pass.Accounted asked) {below : List (Entry V A)} (hstack : pass.stack = .conditional none :: below)
    {a : A} (ha : a ∈ addresses asked) (answer : Option LoopEntry) : Asked.Sourced (.testLoop a answer) asked where
  address := by rintro _ ⟨⟩; exact ha
  value := nofun
  exit := nofun
  test := by
    rintro _ _ ⟨⟩
    rw [h.tested, hstack]
    rfl

theorem Accounted.bound (h : pass.Accounted asked) {a : A} (hinside : pass.innermost? = some (.conditional (some a))) :
    a ∈ addresses asked := by
  obtain ⟨below, hstack⟩ := stack_of_innermost? hinside
  refine h.known (.conditional (some a)) ?_
  rw [hstack]
  exact List.mem_cons_self

theorem Accounted.operands (h : pass.Accounted asked) {operands below : List (Entry V A)}
    (htaken : takeOperands [] pass.stack = some (operands, below)) : ∀ entry ∈ operands, entry.Known asked := by
  obtain ⟨entries, hstack, rfl, -⟩ := eq_append_of_takeOperands htaken
  intro entry hentry
  rw [List.append_nil, List.mem_reverse] at hentry
  exact h.known entry (hstack ▸ List.mem_append_left _ hentry)

/-- The end of a conditional may be asked for its address. -/
theorem Accounted.exitLoop (h : pass.Accounted asked) {a : A} {below : List (Entry V A)}
    (hdropped : dropOperands pass.stack = some (some a, below)) (answer : Option LoopExit) :
    Asked.Sourced (.exitLoop a answer) asked := by
  obtain ⟨entries, hstack, hentries⟩ := eq_append_of_dropOperands hdropped
  refine ⟨?_, nofun, ?_, nofun⟩
  · rintro _ ⟨⟩
    refine h.known (.conditional (some a)) ?_
    rw [hstack]
    exact List.mem_append_right _ List.mem_cons_self
  · rintro _ _ ⟨⟩
    rw [h.tested, hstack, accessors_append hentries]
    rfl

section
variable {b : Backend σ V A} {program : Program} {recorded : Recorded σ V A}
  {r : EStateM.Result Stop (Recorded σ V A) (Pass V A)}

theorem Accounted.read (h : pass.Accounted recorded.asked) {entry : Entry V A} (hentry : entry.Known recorded.asked) {a : A}
    {after : Recorded σ V A} (hread : accessor b.recorded entry recorded = .ok a after) :
    pass.Accounted after.asked ∧ a ∈ addresses after.asked := by
  obtain ⟨hafter, ha⟩ := Action.of_asks_of_ok (accessor_asks b h.sourced hentry) hread
  exact ⟨h.later hafter, ha⟩

theorem hands_accounted {entry : Entry V A} (hands : Hands b.recorded program pass entry recorded r)
    (h : pass.Accounted recorded.asked) (hentry : entry.Known recorded.asked) (haccessor : entry.accessor? = none) :
    Recorded.Leaves Accounted Sourced r := by
  induction hands with
  | kept => exact h.push hentry haccessor
  | dropped => exact h
  | outside => exact h.sourced
  | acted inside act =>
    have hact := Action.of_asks_of_ok (applyToken_asks b program h.sourced (h.bound inside) _) act
    exact h.later hact
  | unacted inside act => exact Action.of_asks_of_error (applyToken_asks b program h.sourced (h.bound inside) _) act
  | unread stack read => exact Action.of_asks_of_error (accessor_asks b h.sourced hentry) read
  | untested stack read test =>
    obtain ⟨hpass, ha⟩ := h.read hentry read
    rw [Recorded.Leaves, Recorded.asked_of_note_error test]
    exact sourced_cons (hpass.testLoop stack ha _) hpass.sourced
  | bound stack read test =>
    obtain ⟨hpass, ha⟩ := h.read hentry read
    rw [Recorded.Leaves, Recorded.asked_of_note test]
    refine hpass.note (hpass.testLoop stack ha _) (List.forall_mem_cons.2 ⟨.inr ?_, fun other hother => .inl ?_⟩) ?_
    · exact mem_addresses_of_suffix (List.suffix_cons _ _) ha
    · exact stack ▸ List.mem_cons_of_mem _ hother
    · rw [stack]
      rfl
  | unclosed stack read test =>
    obtain ⟨hpass, ha⟩ := h.read hentry read
    rw [Recorded.Leaves, Recorded.asked_of_note test]
    exact sourced_cons (hpass.testLoop stack ha _) hpass.sourced
  | unstarted stack read test =>
    obtain ⟨hpass, ha⟩ := h.read hentry read
    rw [Recorded.Leaves, Recorded.asked_of_note test]
    exact sourced_cons (hpass.testLoop stack ha _) hpass.sourced
  | skipped stack read test _ _ _ ih =>
    obtain ⟨hpass, ha⟩ := h.read hentry read
    refine ih ?_ trivial rfl
    rw [Recorded.asked_of_note test]
    refine hpass.note (hpass.testLoop stack ha _) (fun other hother => .inl ?_) ?_
    · exact stack ▸ List.mem_cons_of_mem _ hother
    · rw [stack]
      rfl

/-- Whatever the token, the record goes on accounting for the pass. -/
theorem steps_accounted {token : Token} (steps : Steps b.recorded program pass token recorded r)
    (h : pass.Accounted recorded.asked) : Recorded.Leaves Accounted Sourced r := by
  cases steps with
  | refused => exact h.sourced
  | handed _ hands => exact hands_accounted hands h trivial rfl
  | opened => exact h.push trivial rfl
  | entered enter =>
    change Recorded.note (fun _ => .enterLoop) b.enterLoop recorded = _ at enter
    rw [Recorded.Leaves, Recorded.asked_of_note enter]
    exact h.note sourced_enterLoop (List.forall_mem_cons.2 ⟨.inr trivial, fun _ => .inl⟩) rfl
  | unentered enter =>
    change Recorded.note (fun _ => .enterLoop) b.enterLoop recorded = _ at enter
    rw [Recorded.Leaves, Recorded.asked_of_note_error enter]
    exact sourced_cons sourced_enterLoop h.sourced
  | closed taken act hands =>
    obtain ⟨entries, hstack, -, hentries⟩ := eq_append_of_takeOperands taken
    obtain ⟨hmid, hvalue⟩ := Action.of_asks_of_ok (applied_asks b program h.sourced (h.operands taken)) act
    refine hands_accounted hands ((h.below (hstack.trans (List.append_cons _ _ _)) ?_).later hmid) hvalue rfl
    rw [hstack, accessors_append hentries]
    rfl
  | unacted taken act =>
    exact Action.of_asks_of_error (applied_asks b program h.sourced (h.operands taken)) act
  | again dropped exit =>
    obtain ⟨entries, hstack, hentries⟩ := eq_append_of_dropOperands dropped
    rw [Recorded.Leaves, Recorded.asked_of_note exit]
    refine h.note (h.exitLoop dropped _) (List.forall_mem_cons.2 ⟨.inr trivial, fun other hother => .inl ?_⟩) ?_
    · exact hstack ▸ List.mem_append_right _ (List.mem_cons_of_mem _ hother)
    · rw [hstack, accessors_append hentries]
      rfl
  | left dropped exit _ hands =>
    obtain ⟨entries, hstack, hentries⟩ := eq_append_of_dropOperands dropped
    refine hands_accounted hands ?_ trivial rfl
    rw [Recorded.asked_of_note exit]
    refine h.note (h.exitLoop dropped _) (fun other hother => .inl ?_) ?_
    · exact hstack ▸ List.mem_append_right _ (List.mem_cons_of_mem _ hother)
    · rw [hstack, accessors_append hentries]
      rfl
  | unexited dropped exit =>
    rw [Recorded.Leaves, Recorded.asked_of_note_error exit]
    exact sourced_cons (h.exitLoop dropped _) h.sourced
  | unstarted dropped exit =>
    rw [Recorded.Leaves, Recorded.asked_of_note exit]
    exact sourced_cons (h.exitLoop dropped _) h.sourced

end

section
variable (b : Backend σ V A) (program : Program)

theorem step_accounted (h : pass.Accounted asked) (token : Token) :
    (step b.recorded program pass token).Asks asked Accounted Sourced :=
  fun _ => steps_accounted (steps_step pass token _) h

/-! ## A whole pass -/

/-- Whatever ends the pass, every operation was given what had been answered. -/
theorem run_sourced (fuel : Nat) (h : pass.Accounted asked) :
    (run b.recorded program fuel pass).Asks asked (fun _ => Sourced) Sourced := by
  have hfinish : ∀ {pass : Pass V A} {asked}, pass.Accounted asked →
      (finish b.recorded pass).Asks asked (fun _ => Sourced) Sourced := by
    intro pass asked h
    unfold finish
    split
    · exact Action.asks_pure h.sourced
    · exact Action.asks_fault h.sourced
  induction fuel generalizing pass asked with
  | zero =>
    unfold run
    split
    · exact hfinish h
    · exact fun _ => h.sourced
  | succ fuel ih =>
    obtain ⟨rest, stack, loops⟩ := pass
    cases rest with
    | nil => exact hfinish h
    | cons token tokens =>
      have hread : Accounted (⟨tokens, stack, loops⟩ : Pass V A) asked := ⟨h.sourced, h.known, h.tested⟩
      exact Action.asks_bind (step_accounted b program hread token) fun next later hnext => ih hnext

theorem accounted_first (body : List Token) : Accounted ({ rest := body } : Pass V A) [] where
  sourced := sourced_nil
  known := nofun
  tested := rfl

theorem accounted_of_reaches {body : List Token} {s : σ} {recorded : Recorded σ V A}
    (h : Reaches b.recorded program { rest := body } { state := s } pass recorded) : pass.Accounted recorded.asked := by
  induction h with
  | first => exact accounted_first body
  | @next pass next recorded after token tokens _ _ hstep ih =>
    have hread : Accounted { pass with rest := tokens } recorded.asked := ⟨ih.sourced, ih.known, ih.tested⟩
    have hnext := step_accounted b program hread token recorded.state
    rw [hstep] at hnext
    exact hnext

/-! ## Bare operands -/

/-- What has been added to a record passes no other address. -/
def OnlyAt (a : A) (earlier later : List (Asked V A)) : Prop :=
  ∃ new, later = new ++ earlier ∧ ∀ entry ∈ new, ∀ a' ∈ entry.address?, a' = a

theorem onlyAt_cons {a : A} {earlier later : List (Asked V A)} (h : OnlyAt a earlier later) {entry : Asked V A}
    (hentry : ∀ a' ∈ entry.address?, a' = a) : OnlyAt a earlier (entry :: later) := by
  obtain ⟨new, rfl, hnew⟩ := h
  exact ⟨entry :: new, rfl, List.forall_mem_cons.2 ⟨hentry, hnew⟩⟩

theorem applyToken_onlyAt (a : A) (token : Token) :
    (applyToken b.recorded program a token).Asks asked (fun _ => OnlyAt a asked) (OnlyAt a asked) := by
  have hnone : OnlyAt a asked asked := ⟨[], rfl, nofun⟩
  have hhere : ∀ entry : Asked V A, entry.address? = some a → ∀ {later}, OnlyAt a asked later →
      OnlyAt a asked (entry :: later) := fun entry haddress later h =>
    onlyAt_cons h fun a' ha' => Option.some.inj (ha'.symm.trans haddress)
  have hassign : ∀ value later, OnlyAt a asked later →
      (b.recorded.assign a value).Asks later (fun _ => OnlyAt a asked) (OnlyAt a asked) := fun value later h =>
    Action.asks_told _ (fun _ => hhere (.assign a value) rfl h) (hhere (.assign a value) rfl h)
  cases token with
  | builtin op => exact Action.asks_told _ (fun _ => hhere (.applyBuiltin a op) rfl hnone) (hhere _ rfl hnone)
  | literal value =>
    refine Action.asks_bind (Q := fun _ => OnlyAt a asked) ?_ hassign
    exact Action.asks_note (fun _ => onlyAt_cons hnone nofun) (onlyAt_cons hnone nofun)
  | parameter =>
    refine Action.asks_bind (Q := fun _ => OnlyAt a asked) ?_ hassign
    exact Action.asks_note (fun _ => onlyAt_cons hnone nofun) (onlyAt_cons hnone nofun)
  | identifier name =>
    change Action.Asks (if program.isApplication name then b.recorded.call name a else Action.fault (.unknownToken name)) _ _ _
    split
    · exact Action.asks_told _ (fun _ => hhere (.call name a) rfl hnone) (hhere _ rfl hnone)
    · exact Action.asks_fault hnone
  | _ => exact Action.asks_fault hnone

/-- A bare token in a conditional acts on the address of the conditional. -/
theorem step_onlyAt {a : A} (hinnermost : pass.innermost? = some (.conditional (some a))) {token : Token}
    (hplain : token.isPlain = true) :
    (step b.recorded program pass token).Asks asked (fun _ => OnlyAt a asked) (OnlyAt a asked) := by
  have hstep : step b.recorded program pass token = applyToken b.recorded program a token >>= fun _ => pure pass := by
    rw [step_token _ _ _ hplain]
    unfold deliver
    rw [hinnermost]
  rw [hstep]
  exact Action.asks_bind (applyToken_onlyAt b program a token) fun _ later h => Action.asks_pure h

end

theorem head?_accessors_of_find? {stack : List (Entry V A)} {accessor : Option A}
    (h : stack.find? Entry.isMarker = some (.conditional accessor)) : (accessors stack).head? = some accessor := by
  obtain ⟨-, above, below, rfl, habove⟩ := List.find?_eq_some_iff_append.1 h
  rw [accessors_append fun entry hentry => by simpa using habove entry hentry]
  rfl

end Pass

open Pass in
/-- Whatever ends an evaluation, each of its operations was given an address and a value that had been answered before, and the end of a
conditional the address that this conditional was last tested on and told to run. A bare token that stands directly in a conditional acts
on the address of the conditional and on no other. -/
theorem evaluate_sourced (b : Backend σ V A) (program : Program) (body : List Token) (s : σ) :
    (∀ fuel,
      Recorded.forget (evaluate b.recorded program fuel body { state := s }) = evaluate b program fuel body s ∧
      Sourced (Recorded.left (evaluate b.recorded program fuel body { state := s }))) ∧
    ∀ pass recorded, Reaches b.recorded program { rest := body } { state := s } pass recorded →
      tested recorded.asked = accessors pass.stack ∧
      ∀ token tokens a, pass.rest = token :: tokens → token.isPlain = true →
        pass.stack.find? Entry.isMarker = some (.conditional (some a)) →
        (tested recorded.asked).head? = some (some a) ∧
        ∃ new, Recorded.left (step b.recorded program { pass with rest := tokens } token recorded) = new ++ recorded.asked ∧
          ∀ entry ∈ new, ∀ a' ∈ entry.address?, a' = a := by
  refine ⟨fun fuel => ⟨Recorded.forget_evaluate b program fuel body { state := s }, ?_⟩, fun pass recorded hreached => ?_⟩
  · exact Action.left_of_asks (run_sourced b program fuel (accounted_first body)) s
  · have htested := (accounted_of_reaches b program hreached).tested
    refine ⟨htested, fun token tokens a hrest hplain hfind => ⟨?_, ?_⟩⟩
    · rw [htested, head?_accessors_of_find? hfind]
    · have hinnermost : innermost? { pass with rest := tokens } = some (.conditional (some a)) :=
        (innermost?_of_held (tidy_of_reaches hreached).held).trans hfind
      exact Action.left_of_asks (step_onlyAt b program hinnermost hplain) recorded.state

open Pass in
/-- In `( 0 ( 1 - ) + )` the inner conditional takes its address with it, and `+` acts on that of the outer one. -/
theorem evaluate_sourced_of_nested :
    let body : List Token := [.opening .conditional, .literal 0, .opening .conditional, .literal 1, .builtin .decrement,
      .closing .conditional, .builtin .increment, .closing .conditional]
    ∃ (pass : Pass String String) (recorded : Recorded Trace String String),
      Reaches Trace.backend.recorded (.ofEntry body) { rest := body } { state := {} } pass recorded ∧
      pass.rest = [.builtin .increment, .closing .conditional] ∧ addresses recorded.asked = ["1", "0"] ∧
      (tested recorded.asked).head? = some (some "0") := by
  intro body
  obtain ⟨-, hmoments⟩ := evaluate_sourced Trace.backend (.ofEntry body) body {}
  have hfirst : Reaches Trace.backend.recorded (.ofEntry body) { rest := body } { state := {} } { rest := body } { state := {} } :=
    .first
  have hreached := (((((hfirst.next rfl rfl).next rfl rfl).next rfl rfl).next rfl rfl).next rfl rfl).next rfl rfl
  obtain ⟨-, hbare⟩ := hmoments _ _ hreached
  exact ⟨_, _, hreached, rfl, rfl, (hbare (.builtin .increment) _ "0" rfl rfl rfl).1⟩

end Bracketry
