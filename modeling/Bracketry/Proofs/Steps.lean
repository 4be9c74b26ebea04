import Bracketry.Proofs.Forest
import Bracketry.Proofs.Relator

/-!
# What one token can do

Everything that a pass may do with one token, with the guards under which it does so. Whatever passes preserve is read off from this.

* `Outcome` : a property of the value of a result, or else of its stop;
* `eq_append_of_takeOperands`, `eq_append_of_dropOperands` : a closing bracket looks behind entries that are no open brackets;
* `Pass.applied` : the operands of an applicator at work;
* `Pass.Hands` : what becomes of an entry that is handed to the innermost open bracket; `Pass.deliver_eq_iff`;
* `Pass.Refuses`, `Pass.Steps` : what becomes of a token; `Pass.step_eq_iff`.
-/

namespace Bracketry

variable {σ V A : Type}

/-! ## Results -/

/-- A value with a property, or a stop with one. -/
def Outcome {α : Type} (P : Stop → Prop) (Q : α → Prop) : EStateM.Result Stop σ α → Prop
  | .ok a _ => Q a
  | .error stop _ => P stop

theorem Outcome.mono {α : Type} {P P' : Stop → Prop} {Q Q' : α → Prop} {r : EStateM.Result Stop σ α}
    (hP : ∀ stop, P stop → P' stop) (hQ : ∀ a, Q a → Q' a) (h : Outcome P Q r) : Outcome P' Q' r := by
  cases r with
  | ok a s => exact hQ a h
  | error stop s => exact hP stop h

theorem Outcome.of_parts {α : Type} {P : Stop → Prop} {Q : α → Prop} {r : EStateM.Result Stop σ α}
    (hstop : Outcome P (fun _ => True) r) (hvalue : Outcome (fun _ => True) Q r) : Outcome P Q r := by
  cases r with
  | ok a s => exact hvalue
  | error stop s => exact hstop

/-! ## Closing brackets -/

/-- The operands of an applicator stand above its bracket, and no bracket is among them. -/
theorem eq_append_of_takeOperands {operands taken stack below : List (Entry V A)}
    (h : takeOperands operands stack = some (taken, below)) :
    ∃ entries, stack = entries ++ .applicator :: below ∧ taken = entries.reverse ++ operands ∧
      ∀ entry ∈ entries, entry.isMarker = false := by
  induction stack generalizing operands with
  | nil => cases h
  | cons entry stack ih =>
    have hpassed : takeOperands (entry :: operands) stack = some (taken, below) → entry.isMarker = false →
        ∃ entries, entry :: stack = entries ++ .applicator :: below ∧ taken = entries.reverse ++ operands ∧
          ∀ entry ∈ entries, entry.isMarker = false := by
      intro hrest hentry
      obtain ⟨entries, rfl, rfl, hentries⟩ := ih hrest
      refine ⟨entry :: entries, rfl, by simp, List.forall_mem_cons.2 ⟨hentry, hentries⟩⟩
    cases entry with
    | applicator =>
      obtain ⟨rfl, rfl⟩ := Prod.mk.inj (Option.some.inj h)
      exact ⟨[], rfl, rfl, nofun⟩
    | conditional accessor => cases h
    | _ => exact hpassed h rfl

/-- What is dropped when a conditional closes stands above its bracket, and no bracket is among it. -/
theorem eq_append_of_dropOperands {stack below : List (Entry V A)} {accessor : Option A}
    (h : dropOperands stack = some (accessor, below)) :
    ∃ entries, stack = entries ++ .conditional accessor :: below ∧ ∀ entry ∈ entries, entry.isMarker = false := by
  induction stack with
  | nil => cases h
  | cons entry stack ih =>
    have hpassed : dropOperands stack = some (accessor, below) → entry.isMarker = false →
        ∃ entries, entry :: stack = entries ++ .conditional accessor :: below ∧
          ∀ entry ∈ entries, entry.isMarker = false := by
      intro hrest hentry
      obtain ⟨entries, rfl, hentries⟩ := ih hrest
      exact ⟨entry :: entries, rfl, List.forall_mem_cons.2 ⟨hentry, hentries⟩⟩
    cases entry with
    | applicator => cases h
    | conditional other =>
      obtain ⟨rfl, rfl⟩ := Prod.mk.inj (Option.some.inj h)
      exact ⟨[], rfl, nofun⟩
    | _ => exact hpassed h rfl

theorem skipBody_suffix {depth : Nat} {tokens rest : List Token} (h : skipBody depth tokens = some rest) :
    rest <:+ tokens := by
  fun_induction skipBody depth tokens with
  | case1 => cases h
  | case3 =>
    obtain rfl := Option.some.inj h
    exact List.suffix_cons _ _
  | case2 depth tokens ih => exact (ih h).trans (List.suffix_cons _ _)
  | case4 depth tokens ih => exact (ih h).trans (List.suffix_cons _ _)
  | case5 depth token tokens _ _ _ ih => exact (ih h).trans (List.suffix_cons _ _)

namespace Pass

theorem isMarker_of_innermost? {pass : Pass V A} {marker : Entry V A} (h : pass.innermost? = some marker) :
    marker.isMarker = true := by
  unfold innermost? at h
  split at h
  · cases h
  · obtain rfl := Option.some.inj h
    split
    · assumption
    · rfl

theorem stack_of_innermost? {pass : Pass V A} {accessor : Option A}
    (h : pass.innermost? = some (.conditional accessor)) : ∃ below, pass.stack = .conditional accessor :: below := by
  unfold innermost? at h
  split at h
  · cases h
  · next entry below hstack =>
    have hentry := Option.some.inj h
    split at hentry
    · exact ⟨below, by rw [hstack, hentry]⟩
    · cases hentry

theorem innermost?_of_stack {pass : Pass V A} {accessor : Option A} {below : List (Entry V A)}
    (h : pass.stack = .conditional accessor :: below) : pass.innermost? = some (.conditional accessor) := by
  rw [innermost?, h]
  rfl

section
variable (b : Backend σ V A) (program : Program)

/-- The operands of an applicator at work: the first is its accessor, the others act on the cell in order, and the cell is its
value. -/
def applied : List (Entry V A) → Action σ V
  | [] => Action.structureFault .applicatorWithoutAccessor
  | first :: operands => do
    let address ← accessor b first
    operands.forM (applyOperand b program address)
    b.resolve address

/-- The result of a conditional is handed on like any other entry. -/
theorem deliverVoid_eq_deliver (pass : Pass V A) : deliverVoid b pass = deliver b program pass .void := by
  unfold deliverVoid deliver
  cases hinnermost : pass.innermost? with
  | none => rfl
  | some marker =>
    have hmarker := isMarker_of_innermost? hinnermost
    rcases marker with _ | (_ | address) | _ | _ | _
    · rfl
    · rfl
    · rfl
    · cases hmarker
    · cases hmarker
    · cases hmarker

theorem closeApplicator_eq_applied (pass : Pass V A) :
    closeApplicator b program pass = match takeOperands [] pass.stack with
      | none => Action.structureFault .applicatorNotOpened
      | some (operands, stack) => applied b program operands >>= fun value =>
        deliver b program { pass with stack } (.resolved value) := by
  unfold closeApplicator
  split
  · next h => rw [h]
  · next h => rw [h]; rfl
  · next first operands stack h =>
    rw [h]
    simp only [applied, bind_assoc]

/-! ## Entries -/

/-- An entry is handed to the innermost open bracket, and this comes of it. The result of a conditional that is skipped is handed on
itself. -/
inductive Hands : Pass V A → Entry V A → σ → EStateM.Result Stop σ (Pass V A) → Prop where
  | kept {pass : Pass V A} {entry : Entry V A} {s : σ} (inside : pass.innermost? = some .applicator) :
      Hands pass entry s (.ok (pass.push entry) s)
  | dropped {pass : Pass V A} {entry : Entry V A} {s : σ}
      (inside : pass.innermost? = none ∨ ∃ address, pass.innermost? = some (.conditional (some address)))
      (spent : ∀ token, entry ≠ .pending token) : Hands pass entry s (.ok pass s)
  | outside {pass : Pass V A} {token : Token} {s : σ} (inside : pass.innermost? = none) :
      Hands pass (.pending token) s (.error (.fault (.structural (.outsideBrackets token))) s)
  | acted {pass : Pass V A} {token : Token} {address : A} {s s' : σ}
      (inside : pass.innermost? = some (.conditional (some address))) (act : applyToken b program address token s = .ok () s') :
      Hands pass (.pending token) s (.ok pass s')
  | unacted {pass : Pass V A} {token : Token} {address : A} {s s' : σ} {stop : Stop}
      (inside : pass.innermost? = some (.conditional (some address)))
      (act : applyToken b program address token s = .error stop s') : Hands pass (.pending token) s (.error stop s')
  | unread {pass : Pass V A} {below : List (Entry V A)} {entry : Entry V A} {s s' : σ} {stop : Stop}
      (stack : pass.stack = .conditional none :: below) (read : accessor b entry s = .error stop s') :
      Hands pass entry s (.error stop s')
  | untested {pass : Pass V A} {below : List (Entry V A)} {entry : Entry V A} {address : A} {s mid s' : σ} {stop : Stop}
      (stack : pass.stack = .conditional none :: below) (read : accessor b entry s = .ok address mid)
      (test : b.testLoop address mid = .error stop s') : Hands pass entry s (.error stop s')
  | bound {pass : Pass V A} {below : List (Entry V A)} {entry : Entry V A} {address : A} {s mid s' : σ}
      (stack : pass.stack = .conditional none :: below) (read : accessor b entry s = .ok address mid)
      (test : b.testLoop address mid = .ok .run s') :
      Hands pass entry s (.ok { pass with stack := .conditional (some address) :: below } s')
  | unclosed {pass : Pass V A} {below : List (Entry V A)} {entry : Entry V A} {address : A} {s mid s' : σ}
      (stack : pass.stack = .conditional none :: below) (read : accessor b entry s = .ok address mid)
      (test : b.testLoop address mid = .ok .skip s') (skip : skipBody 0 pass.rest = none) :
      Hands pass entry s (.error (.fault (.structural .conditionalNotClosed)) s')
  | unstarted {pass : Pass V A} {below : List (Entry V A)} {entry : Entry V A} {address : A} {s mid s' : σ} {rest : List Token}
      (stack : pass.stack = .conditional none :: below) (read : accessor b entry s = .ok address mid)
      (test : b.testLoop address mid = .ok .skip s') (skip : skipBody 0 pass.rest = some rest) (loops : pass.loops = []) :
      Hands pass entry s (.error (.fault (.structural .loopStartMissing)) s')
  | skipped {pass : Pass V A} {below : List (Entry V A)} {entry : Entry V A} {address : A} {s mid s' : σ} {rest start : List Token}
      {outer : List (List Token)} {r : EStateM.Result Stop σ (Pass V A)}
      (stack : pass.stack = .conditional none :: below) (read : accessor b entry s = .ok address mid)
      (test : b.testLoop address mid = .ok .skip s') (skip : skipBody 0 pass.rest = some rest)
      (loops : pass.loops = start :: outer) (hands : Hands ⟨rest, below, outer⟩ .void s' r) : Hands pass entry s r

end

variable {b : Backend σ V A} {program : Program}

theorem deliver_of_stack {pass : Pass V A} {below : List (Entry V A)} (hstack : pass.stack = .conditional none :: below)
    (entry : Entry V A) :
    deliver b program pass entry = (do
      let address ← accessor b entry
      match ← b.testLoop address with
      | .run => return { pass with stack := .conditional (some address) :: below }
      | .skip =>
        match skipBody 0 pass.rest, pass.loops with
        | none, _ => Action.structureFault .conditionalNotClosed
        | some _, [] => Action.structureFault .loopStartMissing
        | some rest, _ :: outer => deliver b program ⟨rest, below, outer⟩ .void) := by
  have hbind : deliver b program pass entry = bindAccessor b pass entry := by
    unfold deliver
    rw [innermost?_of_stack hstack]
  rw [hbind]
  unfold bindAccessor
  simp only [hstack]
  congr 1
  funext address
  congr 1
  funext answer
  cases answer with
  | run => rfl
  | skip =>
    cases skipBody 0 pass.rest with
    | none => rfl
    | some rest =>
      simp only [leaveConditional]
      cases pass.loops with
      | nil => rfl
      | cons start outer => exact deliverVoid_eq_deliver b program _

theorem hands_of_stack {pass : Pass V A} {below : List (Entry V A)} (hstack : pass.stack = .conditional none :: below)
    {entry : Entry V A} {s : σ} (hvoid : ∀ next s', Hands b program next .void s' (deliver b program next .void s')) :
    Hands b program pass entry s (deliver b program pass entry s) := by
  rw [deliver_of_stack hstack]
  cases hread : accessor b entry s with
  | error stop s' =>
    rw [Action.bind_of_error hread]
    exact .unread hstack hread
  | ok address mid =>
    rw [Action.bind_of_ok hread]
    cases htest : b.testLoop address mid with
    | error stop s' =>
      rw [Action.bind_of_error htest]
      exact .untested hstack hread htest
    | ok answer s' =>
      rw [Action.bind_of_ok htest]
      cases answer with
      | run => exact .bound hstack hread htest
      | skip =>
        cases hskip : skipBody 0 pass.rest with
        | none => exact .unclosed hstack hread htest hskip
        | some rest =>
          cases hloops : pass.loops with
          | nil => exact .unstarted hstack hread htest hskip hloops
          | cons start outer => exact .skipped hstack hread htest hskip hloops (hvoid _ s')

theorem hands_of_innermost? {pass : Pass V A} {entry : Entry V A} {s : σ}
    (hunbound : ∀ below, pass.stack = .conditional none :: below →
      Hands b program pass entry s (deliver b program pass entry s)) :
    Hands b program pass entry s (deliver b program pass entry s) := by
  cases hinnermost : pass.innermost? with
  | none =>
    unfold deliver
    rw [hinnermost]
    cases entry with
    | pending token => exact .outside hinnermost
    | _ => exact .dropped (.inl hinnermost) nofun
  | some marker =>
    have hmarker := isMarker_of_innermost? hinnermost
    rcases marker with _ | (_ | address) | _ | _ | _
    · unfold deliver
      rw [hinnermost]
      exact .kept hinnermost
    · obtain ⟨below, hstack⟩ := stack_of_innermost? hinnermost
      exact hunbound below hstack
    · unfold deliver
      rw [hinnermost]
      cases entry with
      | pending token =>
        dsimp only
        cases hact : applyToken b program address token s with
        | ok a s' =>
          rw [Action.bind_of_ok hact]
          exact .acted hinnermost hact
        | error stop s' =>
          rw [Action.bind_of_error hact]
          exact .unacted hinnermost hact
      | _ => exact .dropped (.inr ⟨address, hinnermost⟩) nofun
    · cases hmarker
    · cases hmarker
    · cases hmarker

/-- Whatever is handed to a bracket, one of these comes of it. -/
theorem hands_deliver (pass : Pass V A) (entry : Entry V A) (s : σ) :
    Hands b program pass entry s (deliver b program pass entry s) :=
  hands_of_innermost? fun _ hstack => hands_of_stack hstack fun _ _ =>
    -- the result of a conditional is never an accessor, so nothing is skipped for it
    hands_of_innermost? fun _ hnext => (deliver_of_stack hnext _).symm ▸ .unread hnext rfl

theorem deliver_of_hands {pass : Pass V A} {entry : Entry V A} {s : σ} {r : EStateM.Result Stop σ (Pass V A)}
    (h : Hands b program pass entry s r) : deliver b program pass entry s = r := by
  induction h with
  | kept inside =>
    unfold deliver
    rw [inside]
    rfl
  | @dropped pass entry s inside spent =>
    unfold deliver
    rcases inside with inside | ⟨address, inside⟩ <;> rw [inside] <;> cases entry <;>
      first | rfl | exact absurd rfl (spent _)
  | outside inside =>
    unfold deliver
    rw [inside]
    rfl
  | acted inside act =>
    unfold deliver
    rw [inside]
    exact Action.bind_of_ok act
  | unacted inside act =>
    unfold deliver
    rw [inside]
    exact Action.bind_of_error act
  | unread stack read =>
    rw [deliver_of_stack stack]
    exact Action.bind_of_error read
  | untested stack read test =>
    rw [deliver_of_stack stack]
    exact (Action.bind_of_ok read).trans (Action.bind_of_error test)
  | bound stack read test =>
    rw [deliver_of_stack stack]
    exact (Action.bind_of_ok read).trans (Action.bind_of_ok test)
  | unclosed stack read test skip =>
    rw [deliver_of_stack stack, skip]
    exact (Action.bind_of_ok read).trans (Action.bind_of_ok test)
  | unstarted stack read test skip loops =>
    rw [deliver_of_stack stack, skip, loops]
    exact (Action.bind_of_ok read).trans (Action.bind_of_ok test)
  | skipped stack read test skip loops _ ih =>
    rw [deliver_of_stack stack, skip, loops]
    exact ((Action.bind_of_ok read).trans (Action.bind_of_ok test)).trans ih

/-- Nothing else comes of it. -/
theorem deliver_eq_iff {pass : Pass V A} {entry : Entry V A} {s : σ} {r : EStateM.Result Stop σ (Pass V A)} :
    deliver b program pass entry s = r ↔ Hands b program pass entry s r :=
  ⟨fun h => h ▸ hands_deliver pass entry s, deliver_of_hands⟩

/-! ## Tokens -/

variable (b program) in
theorem step_token (pass : Pass V A) {t : Token} (plain : t.isPlain = true) :
    step b program pass t = deliver b program pass (.pending t) := by
  cases t with
  | opening kind => cases plain
  | closing kind => cases plain
  | _ => rfl

/-- The pass cannot read the token, whatever the backend. -/
inductive Refuses (pass : Pass V A) : Token → StructureFault → Prop where
  | opening : Refuses pass (.opening .definition) .definitionInBody
  | closing : Refuses pass (.closing .definition) .definitionInBody
  | applicator (taken : takeOperands [] pass.stack = none) : Refuses pass (.closing .applicator) .applicatorNotOpened
  | conditional (dropped : dropOperands pass.stack = none) : Refuses pass (.closing .conditional) .conditionalNotOpened
  | unbound {below : List (Entry V A)} (dropped : dropOperands pass.stack = some (none, below)) :
      Refuses pass (.closing .conditional) .conditionalWithoutAccessor

variable (b program) in
/-- The pass reads a token, and this comes of it. -/
inductive Steps : Pass V A → Token → σ → EStateM.Result Stop σ (Pass V A) → Prop where
  | refused {pass : Pass V A} {token : Token} {fault : StructureFault} {s : σ} (refuses : Refuses pass token fault) :
      Steps pass token s (.error (.fault (.structural fault)) s)
  | handed {pass : Pass V A} {token : Token} {s : σ} {r : EStateM.Result Stop σ (Pass V A)} (plain : token.isPlain = true)
      (hands : Hands b program pass (.pending token) s r) : Steps pass token s r
  | opened {pass : Pass V A} {s : σ} : Steps pass (.opening .applicator) s (.ok (pass.push .applicator) s)
  | entered {pass : Pass V A} {s s' : σ} (enter : b.enterLoop s = .ok () s') :
      Steps pass (.opening .conditional) s (.ok { pass.push (.conditional none) with loops := pass.rest :: pass.loops } s')
  | unentered {pass : Pass V A} {s s' : σ} {stop : Stop} (enter : b.enterLoop s = .error stop s') :
      Steps pass (.opening .conditional) s (.error stop s')
  | closed {pass : Pass V A} {operands below : List (Entry V A)} {value : V} {s mid : σ} {r : EStateM.Result Stop σ (Pass V A)}
      (taken : takeOperands [] pass.stack = some (operands, below)) (act : applied b program operands s = .ok value mid)
      (hands : Hands b program { pass with stack := below } (.resolved value) mid r) : Steps pass (.closing .applicator) s r
  | unacted {pass : Pass V A} {operands below : List (Entry V A)} {s s' : σ} {stop : Stop}
      (taken : takeOperands [] pass.stack = some (operands, below)) (act : applied b program operands s = .error stop s') :
      Steps pass (.closing .applicator) s (.error stop s')
  | again {pass : Pass V A} {address : A} {below : List (Entry V A)} {s s' : σ} {start : List Token} {outer : List (List Token)}
      (dropped : dropOperands pass.stack = some (some address, below)) (exit : b.exitLoop address s = .ok .again s')
      (loops : pass.loops = start :: outer) :
      Steps pass (.closing .conditional) s (.ok { pass with rest := start, stack := .conditional none :: below } s')
  | left {pass : Pass V A} {address : A} {below : List (Entry V A)} {s mid : σ} {start : List Token} {outer : List (List Token)}
      {r : EStateM.Result Stop σ (Pass V A)} (dropped : dropOperands pass.stack = some (some address, below))
      (exit : b.exitLoop address s = .ok .done mid) (loops : pass.loops = start :: outer)
      (hands : Hands b program ⟨pass.rest, below, outer⟩ .void mid r) : Steps pass (.closing .conditional) s r
  | unexited {pass : Pass V A} {address : A} {below : List (Entry V A)} {s s' : σ} {stop : Stop}
      (dropped : dropOperands pass.stack = some (some address, below)) (exit : b.exitLoop address s = .error stop s') :
      Steps pass (.closing .conditional) s (.error stop s')
  | unstarted {pass : Pass V A} {address : A} {below : List (Entry V A)} {s s' : σ} {answer : LoopExit}
      (dropped : dropOperands pass.stack = some (some address, below)) (exit : b.exitLoop address s = .ok answer s')
      (loops : pass.loops = []) : Steps pass (.closing .conditional) s (.error (.fault (.structural .loopStartMissing)) s')

theorem steps_closeApplicator (pass : Pass V A) (s : σ) :
    Steps b program pass (.closing .applicator) s (closeApplicator b program pass s) := by
  rw [closeApplicator_eq_applied]
  cases htaken : takeOperands [] pass.stack with
  | none => exact .refused (.applicator htaken)
  | some taken =>
    obtain ⟨operands, below⟩ := taken
    dsimp only
    cases hact : applied b program operands s with
    | error stop s' =>
      rw [Action.bind_of_error hact]
      exact .unacted htaken hact
    | ok value mid =>
      rw [Action.bind_of_ok hact]
      exact .closed htaken hact (hands_deliver _ _ mid)

theorem steps_closeConditional (pass : Pass V A) (s : σ) :
    Steps b program pass (.closing .conditional) s (closeConditional b pass s) := by
  obtain ⟨rest, stack, loops⟩ := pass
  unfold closeConditional
  match hdropped : dropOperands stack with
  | none => exact .refused (.conditional hdropped)
  | some (none, below) => exact .refused (.unbound hdropped)
  | some (some address, below) =>
    dsimp only
    cases hexit : b.exitLoop address s with
    | error stop s' =>
      rw [Action.bind_of_error hexit]
      exact .unexited hdropped hexit
    | ok answer mid =>
      rw [Action.bind_of_ok hexit]
      cases loops with
      | nil => cases answer <;> exact .unstarted hdropped hexit rfl
      | cons start outer =>
        cases answer with
        | again => exact .again hdropped hexit rfl
        | done =>
          simp only [leaveConditional]
          rw [deliverVoid_eq_deliver b program]
          exact .left hdropped hexit rfl (hands_deliver _ _ mid)

/-- Whatever the token, one of these comes of it. -/
theorem steps_step (pass : Pass V A) (token : Token) (s : σ) :
    Steps b program pass token s (step b program pass token s) := by
  cases token with
  | opening kind =>
    cases kind with
    | applicator => exact .opened
    | conditional =>
      cases henter : b.enterLoop s with
      | ok a s' =>
        rw [show step b program pass (.opening .conditional) s = _ from Action.bind_of_ok henter]
        exact .entered henter
      | error stop s' =>
        rw [show step b program pass (.opening .conditional) s = _ from Action.bind_of_error henter]
        exact .unentered henter
    | definition => exact .refused .opening
  | closing kind =>
    cases kind with
    | applicator => exact steps_closeApplicator pass s
    | conditional => exact steps_closeConditional pass s
    | definition => exact .refused .closing
  | _ => exact .handed rfl (hands_deliver pass _ s)

theorem step_of_steps {pass : Pass V A} {token : Token} {s : σ} {r : EStateM.Result Stop σ (Pass V A)}
    (h : Steps b program pass token s r) : step b program pass token s = r := by
  cases h with
  | refused refuses =>
    cases refuses with
    | opening => rfl
    | closing => rfl
    | applicator taken =>
      change closeApplicator b program pass s = _
      rw [closeApplicator_eq_applied, taken]
      rfl
    | conditional dropped =>
      change closeConditional b pass s = _
      rw [closeConditional, dropped]
      rfl
    | unbound dropped =>
      change closeConditional b pass s = _
      rw [closeConditional, dropped]
      rfl
  | handed plain hands => exact (congrFun (step_token b program pass plain) s).trans (deliver_of_hands hands)
  | opened => rfl
  | entered enter => exact Action.bind_of_ok enter
  | unentered enter => exact Action.bind_of_error enter
  | closed taken act hands =>
    change closeApplicator b program pass s = _
    rw [closeApplicator_eq_applied, taken]
    exact (Action.bind_of_ok act).trans (deliver_of_hands hands)
  | unacted taken act =>
    change closeApplicator b program pass s = _
    rw [closeApplicator_eq_applied, taken]
    exact Action.bind_of_error act
  | again dropped exit loops =>
    change closeConditional b pass s = _
    rw [closeConditional, dropped]
    refine (Action.bind_of_ok exit).trans ?_
    simp only [loops]
    rfl
  | left dropped exit loops hands =>
    change closeConditional b pass s = _
    rw [closeConditional, dropped]
    refine (Action.bind_of_ok exit).trans ?_
    simp only [leaveConditional, loops]
    rw [deliverVoid_eq_deliver b program]
    exact deliver_of_hands hands
  | unexited dropped exit =>
    change closeConditional b pass s = _
    rw [closeConditional, dropped]
    exact Action.bind_of_error exit
  | @unstarted _ _ _ _ answer dropped exit loops =>
    change closeConditional b pass s = _
    rw [closeConditional, dropped]
    refine (Action.bind_of_ok exit).trans ?_
    cases answer <;> simp only [leaveConditional, loops] <;> rfl

/-- Nothing else comes of it. -/
theorem step_eq_iff {pass : Pass V A} {token : Token} {s : σ} {r : EStateM.Result Stop σ (Pass V A)} :
    step b program pass token s = r ↔ Steps b program pass token s r :=
  ⟨fun h => h ▸ steps_step pass token s, step_of_steps⟩

end Pass

end Bracketry
