import Bracketry.Proofs.Straight

/-!
# Why actions stop

An action ends with a value or with a stop. What all its stops have in common is a property of the operations that it asks for and
of the faults that the evaluator adds.

* `Action.Ends` : a property of the stops of an action, and one of its values;
* `Action.ending` : the same as a relator, for a property that a lack of fuel has;
* `Backend.StopsOnly` : the operations of a backend stop for such reasons only;
* `StructureFault.Guards`, `Error.Unguarded` : the faults that only a pass with its bookkeeping in disorder would find;
* `Pass.accessor_ends`, `Pass.applyToken_ends`, `Pass.applied_ends` : what accessors and operands add are no faults of structure;
* `Pass.hands_ends`, `Pass.step_ends`, `Pass.finish_ends` : what one token adds is no guard;
* `Pass.run_completes` : a straight pass with fuel for every token ends before its fuel does.
-/

namespace Bracketry

variable {σ V A : Type} {α β : Type}

namespace Action

/-- The action gives a value with a property or stops for a reason with one. -/
def Ends (x : Action σ α) (P : Stop → Prop) (Q : α → Prop) : Prop := ∀ s, Outcome P Q (x s)

variable {P P' : Stop → Prop} {Q Q' : α → Prop} {R : β → Prop} {x : Action σ α} {f : α → Action σ β}

theorem ends_pure {a : α} (h : Q a) : Ends (pure a : Action σ α) P Q := fun _ => h

theorem ends_fault {error : Error} (h : P (.fault error)) : Ends (fault error : Action σ α) P Q := fun _ => h

theorem ends_bind (hx : Ends x P Q) (hf : ∀ a, Q a → Ends (f a) P R) : Ends (x >>= f) P R := by
  intro s
  have hresult := hx s
  cases heq : x s with
  | ok a mid =>
    rw [heq] at hresult
    rw [bind_of_ok heq]
    exact hf a hresult mid
  | error stop mid =>
    rw [heq] at hresult
    rw [bind_of_error heq]
    exact hresult

theorem ends_mono (hP : ∀ stop, P stop → P' stop) (hQ : ∀ a, Q a → Q' a) (hx : Ends x P Q) : Ends x P' Q' :=
  fun s => (hx s).mono hP hQ

theorem ends_forM {f : α → Action σ Unit} {as : List α} (h : ∀ a ∈ as, Ends (f a) P fun _ => True) :
    Ends (as.forM f) P fun _ => True := by
  induction as with
  | nil => exact ends_pure trivial
  | cons a as ih =>
    have hrest := ih fun other hother => h other (List.mem_cons_of_mem a hother)
    exact ends_bind (h a List.mem_cons_self) fun _ _ => hrest

theorem ends_ofExcept {r : Except Error α} (h : ∀ error, r = .error error → P (.fault error)) :
    Ends (ofExcept r : Action σ α) P fun a => r = .ok a := by
  cases r with
  | ok a => exact ends_pure rfl
  | error error => exact ends_fault (h error rfl)

theorem stop_of_ends {s s' : σ} {stop : Stop} (h : Ends x P Q) (heq : x s = .error stop s') : P stop := by
  have hresult := h s
  rw [heq] at hresult
  exact hresult

/-- The first of two actions ends in this way; the second one only says which values are meant. -/
def ending (P : Stop → Prop) (h : P .outOfFuel) : Relator σ σ where
  Rel R x _ := Ends x P fun a => ∃ b, R a b
  pure hab := ends_pure ⟨_, hab⟩
  bind hxy hfg := ends_bind hxy fun a ⟨b, hab⟩ => hfg a b hab
  exhausted _ := fun _ => h

end Action

/-- Every operation of the backend stops only for reasons with a property. -/
structure Backend.StopsOnly (b : Backend σ V A) (P : Stop → Prop) : Prop where
  literal (value : Int64) : (b.literal value).Ends P fun _ => True
  parameter : b.parameter.Ends P fun _ => True
  resolveAccessor (value : V) : (b.resolveAccessor value).Ends P fun _ => True
  applyBuiltin (address : A) (op : Builtin) : (b.applyBuiltin address op).Ends P fun _ => True
  assign (address : A) (value : V) : (b.assign address value).Ends P fun _ => True
  call (name : String) (address : A) : (b.call name address).Ends P fun _ => True
  resolve (address : A) : (b.resolve address).Ends P fun _ => True
  enterLoop : b.enterLoop.Ends P fun _ => True
  testLoop (address : A) : (b.testLoop address).Ends P fun _ => True
  exitLoop (address : A) : (b.exitLoop address).Ends P fun _ => True

theorem Backend.StopsOnly.mono {b : Backend σ V A} {P P' : Stop → Prop} (hP : ∀ stop, P stop → P' stop)
    (h : b.StopsOnly P) : b.StopsOnly P' where
  literal value := Action.ends_mono hP (fun _ => id) (h.literal value)
  parameter := Action.ends_mono hP (fun _ => id) h.parameter
  resolveAccessor value := Action.ends_mono hP (fun _ => id) (h.resolveAccessor value)
  applyBuiltin address op := Action.ends_mono hP (fun _ => id) (h.applyBuiltin address op)
  assign address value := Action.ends_mono hP (fun _ => id) (h.assign address value)
  call name address := Action.ends_mono hP (fun _ => id) (h.call name address)
  resolve address := Action.ends_mono hP (fun _ => id) (h.resolve address)
  enterLoop := Action.ends_mono hP (fun _ => id) h.enterLoop
  testLoop address := Action.ends_mono hP (fun _ => id) (h.testLoop address)
  exitLoop address := Action.ends_mono hP (fun _ => id) (h.exitLoop address)

/-! ## Reasons that are none of the operations -/

def Error.IsUnstructured (error : Error) : Prop := ∀ fault, error ≠ .structural fault

/-- The faults by which a pass would say that its own bookkeeping went wrong, and what is said of them. -/
inductive StructureFault.Guards : StructureFault → String → Prop where
  | innermost : Guards .markerIsValue "stack marker lookup returned a value entry"
  | bind : Guards .noConditionalToBind "conditional accessor without an open conditional"
  | skip : Guards .noConditionalToSkip "skipped a conditional that was not open"
  | start : Guards .loopStartMissing "loop re-entry index missing"
  | operand (description : String) : Guards (.markerAmongOperands description) s!"unexpected '{description}' inside applicator"

def Error.Unguarded (error : Error) : Prop := ∀ fault text, error = .structural fault → ¬ fault.Guards text

theorem Error.unguarded_of_isUnstructured {error : Error} (h : error.IsUnstructured) : error.Unguarded :=
  fun fault _ heq => absurd heq (h fault)

theorem Error.unguarded_structural {fault : StructureFault} (h : ∀ text, ¬ fault.Guards text) :
    (Error.structural fault).Unguarded := by
  rintro _ text ⟨⟩
  exact h text

/-! ## Open conditionals -/

def Entry.isConditional : Entry V A → Bool
  | conditional _ => true
  | _ => false

def conditionals (stack : List (Entry V A)) : Nat := stack.countP Entry.isConditional

theorem Entry.isConditional_eq_false {entry : Entry V A} (h : entry.isMarker = false) : entry.isConditional = false := by
  cases entry with
  | conditional accessor => cases h
  | _ => rfl

theorem conditionals_append {entries : List (Entry V A)} (h : ∀ entry ∈ entries, entry.isMarker = false)
    (stack : List (Entry V A)) : conditionals (entries ++ stack) = conditionals stack := by
  have hnone : entries.countP Entry.isConditional = 0 :=
    List.countP_eq_zero.2 fun entry hentry => by simp [Entry.isConditional_eq_false (h entry hentry)]
  rw [conditionals, List.countP_append, hnone, Nat.zero_add]
  rfl

namespace Pass
variable {b : Backend σ V A} {program : Program} {P : Stop → Prop} (h : b.StopsOnly P)

/-! ## Accessors and operands -/

section
variable (hP : ∀ error : Error, error.IsUnstructured → P (.fault error))
include h hP

theorem accessor_ends (entry : Entry V A) : (accessor b entry).Ends P fun _ => True := by
  have hother : ∀ other : Entry V A,
      Action.Ends (Action.fault (.invalidAccessor (other.describe b.describe)) >>= b.resolveAccessor) P fun _ => True :=
    fun other => Action.ends_bind (Q := fun _ => True) (Action.ends_fault (hP _ fun _ heq => by cases heq))
      fun value _ => h.resolveAccessor value
  cases entry with
  | pending token =>
    cases token with
    | literal value => exact Action.ends_bind (h.literal value) fun value _ => h.resolveAccessor value
    | parameter => exact Action.ends_bind h.parameter fun value _ => h.resolveAccessor value
    | _ => exact hother _
  | resolved value =>
    exact Action.ends_bind (Q := fun _ => True) (Action.ends_pure trivial) fun value _ => h.resolveAccessor value
  | _ => exact hother _

theorem applyToken_ends (address : A) (token : Token) :
    (applyToken b program address token).Ends P fun _ => True := by
  have hunknown : ∀ text, Action.Ends (Action.fault (.unknownToken text) : Action σ Unit) P fun _ => True :=
    fun text => Action.ends_fault (hP _ fun _ heq => by cases heq)
  cases token with
  | builtin op => exact h.applyBuiltin address op
  | literal value => exact Action.ends_bind (h.literal value) fun value _ => h.assign address value
  | parameter => exact Action.ends_bind h.parameter fun value _ => h.assign address value
  | identifier name =>
    change Action.Ends (if program.isApplication name then b.call name address else _) P fun _ => True
    split
    · exact h.call name address
    · exact hunknown name
  | _ => exact hunknown _

theorem applyOperand_ends (address : A) {entry : Entry V A} (hentry : entry.isMarker = false) :
    (applyOperand b program address entry).Ends P fun _ => True := by
  cases entry with
  | pending token => exact applyToken_ends h hP address token
  | resolved value => exact h.assign address value
  | void => exact Action.ends_pure trivial
  | applicator => cases hentry
  | conditional accessor => cases hentry

theorem applied_ends (hnone : P (.fault (.structural .applicatorWithoutAccessor))) {operands : List (Entry V A)}
    (hoperands : ∀ entry ∈ operands, entry.isMarker = false) : (applied b program operands).Ends P fun _ => True := by
  cases operands with
  | nil => exact Action.ends_fault hnone
  | cons first operands =>
    refine Action.ends_bind (accessor_ends h hP first) fun address _ => ?_
    have hrest : (operands.forM (applyOperand b program address)).Ends P fun _ => True := Action.ends_forM fun entry hentry =>
      applyOperand_ends h hP address (hoperands entry (List.mem_cons_of_mem _ hentry))
    exact Action.ends_bind hrest fun _ _ => h.resolve address

end

/-! ## One token -/

section
variable {r : EStateM.Result Stop σ (Pass V A)} {s : σ} (hP : ∀ error : Error, error.Unguarded → P (.fault error))

include h hP

/-- A guard ends the pass only where fewer places to go back to are kept than there are open conditionals. -/
theorem hands_ends {pass : Pass V A} {entry : Entry V A} (hands : Hands b program pass entry s r)
    (hstart : pass.loops.length < conditionals pass.stack → P (.fault (.structural .loopStartMissing))) :
    Outcome P (fun _ => True) r := by
  have hunstructured : ∀ error : Error, error.IsUnstructured → P (.fault error) :=
    fun _ herror => hP _ (Error.unguarded_of_isUnstructured herror)
  induction hands with
  | outside => exact hP _ (Error.unguarded_structural nofun)
  | unacted _ act => exact Action.stop_of_ends (applyToken_ends h hunstructured _ _) act
  | unread _ read => exact Action.stop_of_ends (accessor_ends h hunstructured _) read
  | untested _ _ test => exact Action.stop_of_ends (h.testLoop _) test
  | unclosed => exact hP _ (Error.unguarded_structural nofun)
  | unstarted stack _ _ _ loops =>
    refine hstart ?_
    rw [stack, loops, conditionals, List.countP_cons_of_pos rfl]
    exact Nat.succ_pos _
  | skipped stack _ _ _ loops _ ih =>
    refine ih fun hless => hstart ?_
    rw [stack, loops, conditionals, List.countP_cons_of_pos rfl]
    exact Nat.succ_lt_succ hless
  | _ => trivial

theorem step_ends {pass : Pass V A} (hstart : pass.loops.length < conditionals pass.stack →
    P (.fault (.structural .loopStartMissing))) (token : Token) : (step b program pass token).Ends P fun _ => True := by
  intro s
  have hsteps : Steps b program pass token s (step b program pass token s) := steps_step pass token s
  generalize step b program pass token s = r at hsteps
  -- a closing bracket takes entries off the stack, and an open conditional with its place at most
  have hdrop : ∀ {accessor : Option A} {below : List (Entry V A)}, dropOperands pass.stack = some (accessor, below) →
      conditionals pass.stack = conditionals below + 1 := fun hdropped => by
    obtain ⟨entries, hstack, hentries⟩ := eq_append_of_dropOperands hdropped
    rw [hstack, conditionals_append hentries]
    exact List.countP_cons_of_pos rfl
  cases hsteps with
  | refused refuses => cases refuses <;> exact hP _ (Error.unguarded_structural nofun)
  | handed _ hands => exact hands_ends h hP hands hstart
  | opened => trivial
  | entered => trivial
  | unentered enter => exact Action.stop_of_ends h.enterLoop enter
  | closed taken _ hands =>
    obtain ⟨entries, hstack, -, hentries⟩ := eq_append_of_takeOperands taken
    refine hands_ends h hP hands fun hless => hstart ?_
    rw [hstack, conditionals_append hentries, conditionals, List.countP_cons_of_neg Bool.false_ne_true]
    exact hless
  | unacted taken act =>
    obtain ⟨entries, -, rfl, hentries⟩ := eq_append_of_takeOperands taken
    have hunstructured : ∀ error : Error, error.IsUnstructured → P (.fault error) :=
      fun _ herror => hP _ (Error.unguarded_of_isUnstructured herror)
    exact Action.stop_of_ends (applied_ends h hunstructured (hP _ (Error.unguarded_structural nofun))
      fun entry hentry => hentries entry (by simpa using hentry)) act
  | again => trivial
  | left dropped _ loops hands =>
    refine hands_ends h hP hands fun hless => hstart ?_
    rw [hdrop dropped, loops]
    exact Nat.succ_lt_succ hless
  | unexited _ exit => exact Action.stop_of_ends (h.exitLoop _) exit
  | unstarted dropped _ loops =>
    refine hstart ?_
    rw [hdrop dropped, loops]
    exact Nat.succ_pos _

omit h in
theorem finish_ends (pass : Pass V A) : (finish b pass).Ends P fun _ => True := by
  unfold finish
  split
  · exact Action.ends_pure trivial
  · exact Action.ends_fault (hP _ (Error.unguarded_structural nofun))

end

/-! ## Passes that end before their fuel -/

section
variable (hstraight : b.Straight)
include hstraight

/-- A straight pass over operations that never lack fuel needs one unit of fuel for each token. -/
theorem run_completes (h : b.StopsOnly (· ≠ .outOfFuel)) (fuel : Nat) (pass : Pass V A)
    (hfuel : pass.rest.length ≤ fuel) : (run b program fuel pass).Ends (· ≠ .outOfFuel) fun _ => True := by
  have hfaults : ∀ error : Error, Stop.fault error ≠ .outOfFuel := fun _ heq => by cases heq
  induction fuel generalizing pass with
  | zero =>
    obtain ⟨tokens, stack, loops⟩ := pass
    cases tokens with
    | nil => exact finish_ends (fun error _ => hfaults error) _
    | cons t tokens => simp at hfuel
  | succ fuel ih =>
    obtain ⟨tokens, stack, loops⟩ := pass
    cases tokens with
    | nil => exact finish_ends (fun error _ => hfaults error) _
    | cons t tokens =>
      have hlength : tokens.length ≤ fuel := by simpa using hfuel
      intro s
      change Outcome _ _ ((step b program ⟨tokens, stack, loops⟩ t >>= run b program fuel) s)
      have hstep : Outcome _ _ (step b program ⟨tokens, stack, loops⟩ t s) :=
        step_ends h (fun error _ => hfaults error) (fun _ => hfaults _) t s
      cases heq : step b program ⟨tokens, stack, loops⟩ t s with
      | ok next mid =>
        have hrest : next.rest = tokens := (step_straight hstraight heq).1
        rw [Action.bind_of_ok heq]
        exact ih next (by rw [hrest]; exact hlength) mid
      | error stop mid =>
        rw [heq] at hstep
        rw [Action.bind_of_error heq]
        exact hstep

end

end Pass

end Bracketry
