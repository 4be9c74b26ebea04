import Bracketry.Proofs.Concatenation
import Bracketry.Proofs.Machine.CallDepth
import Bracketry.Proofs.Machine.Respects

/-!
# Guards of conditionals

A conditional ends where its cell is zero, and then another one on the same cell is passed over, whatever it contains.

* `Relator.leaving` : actions that leave a part of the state as it was;
* `Machine.frames_passBody` : a body and all it calls leave the active applications as they were;
* `Machine.named?` : the number that a token names as an accessor;
* `Action.exists_turn_of_repeating` : what is repeated ends with a turn that asks for no other;
* `Machine.zero_of_turn` : a turn that asks for no other has found the cell zero and done nothing;
* `loopOn`, `Machine.zero_of_passBody`, `Machine.passBody_of_zero` : the tokens of a conditional, when they are left and when they are
  passed over;
* `Machine.loop_leaves_zero` : a conditional, and one on the same cell behind it.
-/

namespace Bracketry

/-! ## Active applications -/

/-- Actions that leave a part of the state as it was: both sides are one action. -/
def Relator.leaving {σ γ : Type} (part : σ → γ) : Relator σ σ where
  Rel R x y := ∀ s, Abreast (fun t t' => t = t' ∧ part t = part s) R (x s) (y s)
  pure h := fun _ => ⟨h, rfl, rfl⟩
  bind {α β γ δ R S x y f g} hxy hfg := by
    intro s
    refine (hxy s).bind_cases (P := Abreast _ S) ?_ fun _ _ hs => ⟨rfl, hs⟩
    rintro a b mid _ - - hab ⟨rfl, hmid⟩
    have hnext := hfg a b hab mid
    rw [hmid] at hnext
    exact hnext
  exhausted _ := fun _ => ⟨rfl, rfl, rfl⟩

theorem Relator.leaving_iff {σ γ α : Type} {part : σ → γ} {x : Action σ α} :
    (leaving part).Rel Eq x x ↔ ∀ s, Leaves (fun t => part t = part s) (x s) :=
  forall_congr' fun s => by cases x s <;> simp [Abreast, Leaves]

theorem Relator.leaving_keepsFaults {σ γ : Type} {part : σ → γ} : (leaving part).KeepsFaults := fun _ _ _ => ⟨rfl, rfl, rfl⟩

theorem Relator.keeping_of_leaving {σ γ α β : Type} {part : σ → γ} {R : α → β → Prop} {x : Action σ α} {y : Action σ β} (c : γ)
    (h : (leaving part).Rel R x y) : (keeping fun s => part s = c).Rel R x y := by
  rintro s _ ⟨rfl, rfl⟩
  exact h s

namespace Machine
variable {limits : Limits} {program : Program} {machine after : Machine}

theorem leaving_of_uncalled {α : Type} {x : Action Machine α} (h : ∀ machine, Uncalled machine (x machine)) :
    (Relator.leaving frames).Rel Eq x x := by
  refine Relator.leaving_iff.2 fun machine => ?_
  have hframes := (h machine).frames
  cases hx : x machine with
  | ok a mid => rw [hx] at hframes; exact hframes
  | error stop mid => rw [hx] at hframes; exact hframes

theorem call_leaving {evaluateBody evaluateBody' : List Token → Action Machine Unit}
    (hbody : ∀ body, (Relator.leaving frames).Rel Eq (evaluateBody body) (evaluateBody' body)) (name : String) (address : Nat) :
    (Relator.leaving frames).Rel Eq (call limits program evaluateBody name address)
      (call limits program evaluateBody' name address) := by
  intro machine
  rw [call_eq, call_eq]
  split
  · exact ⟨rfl, rfl, rfl⟩
  · split
    · exact ⟨rfl, rfl, rfl⟩
    · next body _ =>
      rw [inFrame_eq, inFrame_eq]
      refine leaveFrame_abreast (hbody body { machine with frames := machine.frames.push address }) ?_
      rintro mid _ ⟨rfl, hframes⟩
      exact ⟨rfl, (congrArg Array.pop hframes).trans Array.pop_push⟩

theorem frames_respects : Respects (.leaving frames) limits limits program fun _ => True where
  faults := Relator.leaving_keepsFaults
  argument := leaving_of_uncalled argument_uncalled
  checkAddress value := by
    cases limits.checkAddress value with
    | ok address => exact (Relator.leaving frames).pure ⟨rfl, trivial⟩
    | error error => exact fun _ => ⟨rfl, rfl, rfl⟩
  cell {address} _ := leaving_of_uncalled (cell_uncalled address)
  store {address} _ value := leaving_of_uncalled (store_uncalled address value)
  read := leaving_of_uncalled (uncalled_bind (perform_uncalled Streams.flush) fun _ => perform_uncalled Streams.read)
  write value := leaving_of_uncalled (perform_uncalled (Streams.write value))
  call := call_leaving

theorem frames_passBody {fuel : Nat} {body : List Token} (h : passBody limits program fuel body machine = .ok () after) :
    after.frames = machine.frames := by
  have hbody : (Relator.leaving frames).Rel Eq (passBody limits program fuel body) (passBody limits program fuel body) :=
    frames_respects.passBody fuel body
  have hleaves := Relator.leaving_iff.1 hbody machine
  rw [h] at hleaves
  exact hleaves

end Machine

/-! ## The last turn -/

theorem Action.exists_turn_of_repeating {σ : Type} {turn : Action σ Bool} {fuel : Nat} {s s' : σ}
    (h : repeating turn fuel s = .ok () s') : ∃ mid, turn mid = .ok false s' := by
  induction fuel generalizing s with
  | zero => cases h
  | succ fuel ih =>
    obtain ⟨again, mid, hturn, hrest⟩ := of_bind_eq_ok h
    cases again with
    | true => exact ih hrest
    | false =>
      obtain ⟨-, rfl⟩ := EStateM.Result.ok.inj hrest
      exact ⟨s, hturn⟩

namespace Machine
variable {limits : Limits} {program : Program} {machine after : Machine} {address : Nat}
  {evaluateBody : List Token → Action Machine Unit}

theorem get?_of_cell {value : UInt8} (h : cell address machine = .ok value after) :
    machine.memory.get? address = some value := by
  unfold cell at h
  split at h
  · next byte hbyte =>
    obtain ⟨rfl, -⟩ := EStateM.Result.ok.inj h
    exact hbyte
  · cases h

/-- At the closing bracket a machine always goes back to the test, so that a turn is the last one only if its test says so. -/
theorem zero_of_turn {body : Action Machine (List (Item Int64))}
    (h : (backendWith limits program evaluateBody).turn address body machine = .ok false after) :
    machine.memory.get? address = some 0 ∧ after = machine := by
  obtain ⟨answer, mid, htest, hrest⟩ := Action.of_bind_eq_ok h
  obtain ⟨value, found, hcell, hanswer⟩ := Action.of_bind_eq_ok htest
  obtain rfl := eq_of_cell hcell
  obtain ⟨rfl, rfl⟩ := EStateM.Result.ok.inj hanswer
  by_cases hvalue : value = 0
  · rw [if_pos hvalue] at hrest
    obtain ⟨-, rfl⟩ := EStateM.Result.ok.inj hrest
    rw [get?_of_cell hcell, hvalue]
    exact ⟨rfl, rfl⟩
  · rw [if_neg hvalue] at hrest
    obtain ⟨_, left, -, hexit⟩ := Action.of_bind_eq_ok hrest
    obtain ⟨htrue, -⟩ := EStateM.Result.ok.inj hexit
    cases htrue

/-! ## Accessors -/

/-- The number that a token names as an accessor: a literal itself, the parameter the argument of the innermost application. -/
def named? (machine : Machine) : Token → Option Int64
  | .literal value => some value
  | .parameter => machine.frames.back?.map shown
  | _ => none

/-- What passes for an accessor is the address that it names, and looking it up changes nothing. -/
theorem accessor_eq_ok_iff {token : Token} :
    Pass.accessor (backendWith limits program evaluateBody) (.pending token) machine = .ok address after ↔
      (∃ value, machine.named? token = some value ∧ limits.checkAddress value = .ok address) ∧ after = machine := by
  have hcheck : ∀ value, (Action.ofExcept (limits.checkAddress value) : Action Machine Nat) machine = .ok address after ↔
      limits.checkAddress value = .ok address ∧ after = machine := by
    intro value
    cases limits.checkAddress value with
    | ok found =>
      refine ⟨fun h => ?_, ?_⟩
      · obtain ⟨rfl, rfl⟩ := EStateM.Result.ok.inj h
        exact ⟨rfl, rfl⟩
      · rintro ⟨hfound, rfl⟩
        rw [Except.ok.inj hfound]
        rfl
    | error error => exact ⟨nofun, fun h => nomatch h.1⟩
  have hnamed : ∀ {value}, machine.named? token = some value → (limits.checkAddress value = .ok address ∧ after = machine ↔
      (∃ value, machine.named? token = some value ∧ limits.checkAddress value = .ok address) ∧ after = machine) := by
    intro value h
    refine and_congr_left' ⟨fun hvalue => ⟨value, h, hvalue⟩, ?_⟩
    rintro ⟨other, hother, hvalue⟩
    rw [h] at hother
    rwa [Option.some.inj hother]
  cases token with
  | literal value =>
    have haccessor : Pass.accessor (backendWith limits program evaluateBody) (.pending (.literal value)) machine =
        Action.ofExcept (limits.checkAddress value) machine := rfl
    rw [haccessor, hcheck]
    exact hnamed rfl
  | parameter =>
    have haccessor : Pass.accessor (backendWith limits program evaluateBody) (.pending .parameter) =
        (argument >>= fun value => Action.ofExcept (limits.checkAddress value)) := rfl
    rw [haccessor]
    cases hback : machine.frames.back? with
    | none =>
      have hfault : argument machine = .error (.fault .argumentOutsideApplication) machine := by
        unfold argument
        rw [hback]
      rw [Action.bind_of_error hfault]
      have hnone : machine.named? .parameter = none := congrArg (Option.map shown) hback
      refine ⟨nofun, ?_⟩
      rintro ⟨⟨value, hvalue, -⟩, -⟩
      rw [hnone] at hvalue
      cases hvalue
    | some frame =>
      rw [Action.bind_of_ok (argument_eq hback), hcheck]
      exact hnamed (congrArg (Option.map shown) hback)
  | _ =>
    refine ⟨fun h => ?_, fun h => ?_⟩
    · cases h
    · obtain ⟨⟨value, hnamed, -⟩, -⟩ := h
      cases hnamed

end Machine

/-! ## Conditionals -/

def loopOn (accessor : Token) (body : List Token) : List Token :=
  .opening .conditional :: accessor :: (body ++ [.closing .conditional])

theorem tokens_conditional {accessor : Token} (haccessor : accessor.isPlain = true) {body : List Token} (hbody : Closes [] body) :
    (Forest.conditional (.token accessor haccessor (.ofTokens body)) .nil).tokens = loopOn accessor body := by
  change .opening .conditional :: (accessor :: (Forest.ofTokens body).tokens ++ [.closing .conditional]) = _
  rw [Forest.tokens_ofTokens hbody]
  rfl

namespace Machine
variable {limits : Limits} {program : Program} {machine after : Machine} {accessor : Token} {body : List Token} {fuel : Nat}

/-- Turn by turn, a conditional comes to its end where its cell is zero. -/
theorem zero_of_evaluate {evaluateBody : List Token → Action Machine Unit} (haccessor : accessor.isPlain = true) {rest : Forest}
    (h : (Forest.conditional (.token accessor haccessor rest) .nil).evaluate (backendWith limits program evaluateBody) program fuel
      machine = .ok () after) :
    ∃ value address, after.named? accessor = some value ∧ limits.checkAddress value = .ok address ∧
      after.memory.get? address = some 0 := by
  obtain ⟨_, _, hitems, hlast⟩ := Action.of_bind_eq_ok h
  obtain ⟨_, _, -, hconditional⟩ := Action.of_bind_eq_ok hitems
  obtain ⟨_, left, hturns, hnil⟩ := Action.of_bind_eq_ok hconditional
  obtain ⟨mid, hturn⟩ := Action.exists_turn_of_repeating hturns
  obtain ⟨address, found, hfound, htest⟩ := Action.of_bind_eq_ok hturn
  -- Behind the last turn there is nothing to do, and that turn has only looked at the cell.
  obtain ⟨-, rfl⟩ := EStateM.Result.ok.inj hnil
  obtain ⟨-, rfl⟩ := EStateM.Result.ok.inj hlast
  obtain ⟨hzero, rfl⟩ := zero_of_turn htest
  rw [← Item.accessor_entry] at hfound
  obtain ⟨⟨value, hnamed, hcheck⟩, rfl⟩ := accessor_eq_ok_iff.1 hfound
  exact ⟨value, address, hnamed, hcheck, hzero⟩

/-- A conditional that ends well leaves its cell zero. -/
theorem zero_of_passBody (haccessor : accessor.isPlain = true) (hbody : Closes [] body)
    (h : passBody limits program fuel (loopOn accessor body) machine = .ok () after) :
    ∃ value address, machine.named? accessor = some value ∧ limits.checkAddress value = .ok address ∧
      after.memory.get? address = some 0 := by
  have hframes : machine.named? accessor = after.named? accessor := by
    unfold named?
    rw [frames_passBody h]
  rw [hframes]
  have htokens := tokens_conditional haccessor hbody
  have hcloses : Closes [] (loopOn accessor body) := by
    have hforest := Forest.closes_tokens_append (.conditional (.token accessor haccessor (.ofTokens body)) .nil) .nil
    rwa [List.append_nil, htokens] at hforest
  cases fuel with
  | zero => cases h
  | succ fuel =>
    rw [passBody, backend_eq] at h
    have halike := Backend.alike_below_refl (backendWith limits program (passBody limits program fuel))
    have hbelow := Forest.evaluate_below program halike hcloses (Nat.le_refl fuel) machine
    rw [h, ← htokens, Forest.ofTokens_tokens] at hbelow
    exact zero_of_evaluate haccessor (hbelow.resolve_left id).symm

/-- Where its cell is zero, a conditional is passed over. Nothing is asked about what it contains, except that it ends. -/
theorem passBody_of_zero (haccessor : accessor.isPlain = true) (hbody : Closes [] body) {value : Int64} {address : Nat}
    (hnamed : machine.named? accessor = some value) (hcheck : limits.checkAddress value = .ok address)
    (hzero : machine.memory.get? address = some 0) (fuel : Nat) :
    passBody limits program (fuel + 3) (loopOn accessor body) machine = .ok () machine := by
  rw [passBody, backend_eq, evaluate, loopOn, Pass.run_opening_conditional]
  generalize passBody limits program (fuel + 2) = evaluateBody
  have haddress : Item.address (backendWith limits program evaluateBody) (.token accessor) machine = .ok address machine := by
    rw [← Item.accessor_entry]
    exact accessor_eq_ok_iff.2 ⟨⟨value, hnamed, hcheck⟩, rfl⟩
  have htest : (backendWith limits program evaluateBody).testLoop address machine = .ok .skip machine := by
    have hcell : cell address machine = .ok 0 machine := by
      unfold cell
      rw [hzero]
    exact Action.bind_of_ok hcell
  refine (Action.bind_of_ok (rfl : (pure () : Action Machine Unit) machine = .ok () machine)).trans ?_
  rw [Pass.run_accessor _ program haccessor, ← Forest.tokens_ofTokens hbody, Pass.bindAccessor_run]
  refine (Action.bind_of_ok haddress).trans ((Action.bind_of_ok htest).trans ?_)
  cases fuel <;> rfl

/-- A conditional that ends well leaves its guard at zero, whatever it contains and however many turns it takes. A second one on the same
guard, be it a literal or the parameter, is then passed over, and need not make sense; the machine that is left is the same in both cases.
-/
theorem loop_leaves_zero (limits : Limits) (program : Program) (accessor : Token) (haccessor : accessor.isPlain = true)
    (body other : List Token) (hbody : checkBrackets body = .ok ()) (hfree : .opening .definition ∉ body)
    (hother : checkBrackets other = .ok ()) (hother_free : .opening .definition ∉ other) (fuel : Nat) (machine after : Machine)
    (h : passBody limits program fuel (loopOn accessor body) machine = .ok () after) :
    (∃ value address, machine.named? accessor = some value ∧ limits.checkAddress value = .ok address ∧
      after.memory.get? address = some 0) ∧
    ∃ least, ∀ more ≥ least, passBody limits program more (loopOn accessor body ++ loopOn accessor other) machine = .ok () after := by
  obtain ⟨value, address, hnamed, hcheck, hzero⟩ := zero_of_passBody haccessor (closes_of_checkBrackets hbody hfree) h
  refine ⟨⟨value, address, hnamed, hcheck, hzero⟩, ?_⟩
  have hsame : after.named? accessor = some value := by
    rw [← hnamed]
    unfold named?
    rw [frames_passBody h]
  have hskipped : passBody limits program 3 (loopOn accessor other) after = .ok () after :=
    passBody_of_zero haccessor (closes_of_checkBrackets hother hother_free) hsame hcheck hzero 0
  obtain ⟨least, hboth⟩ := (passBody_append_iff h id).2 ⟨_, hskipped⟩
  refine ⟨least, fun more hmore => ?_⟩
  rw [(passBody_below_of_le hmore _).eq_of_not_exhausted (by rw [hboth]; exact id), hboth]

/-- `( 0 . - )` counts down from two. A second conditional on that cell may name a cell that is none and apply what is unknown, and so
may one on the argument in an application on that cell. -/
theorem loop_leaves_zero_of_countdown :
    let limits : Limits := ⟨2, 1⟩
    let program : Program := .ofEntry []
    let body : List Token := [.builtin .output, .builtin .decrement]
    let other : List Token := [.opening .applicator, .literal 7, .identifier "nothing", .closing .applicator,
      .opening .conditional, .closing .conditional]
    let machine : Machine := { memory := (Memory.zeroed 2).set 0 2 }
    let called : Machine := { machine with frames := #[0] }
    checkBrackets body = .ok () ∧ .opening .definition ∉ body ∧ checkBrackets other = .ok () ∧ .opening .definition ∉ other ∧
      (∃ after, passBody limits program 20 (loopOn (.literal 0) body) machine = .ok () after ∧ after.streams.output = [2, 1] ∧
        ∃ least, ∀ more ≥ least,
          passBody limits program more (loopOn (.literal 0) body ++ loopOn (.literal 0) other) machine = .ok () after) ∧
      ∃ after, passBody limits program 20 (loopOn .parameter body) called = .ok () after ∧ called.named? .parameter = some 0 ∧
        after.memory.get? 0 = some 0 ∧
        ∃ least, ∀ more ≥ least,
          passBody limits program more (loopOn .parameter body ++ loopOn .parameter other) called = .ok () after := by
  have hliteral : ∃ after, passBody ⟨2, 1⟩ (.ofEntry []) 20 (loopOn (.literal 0) [.builtin .output, .builtin .decrement])
      { memory := (Memory.zeroed 2).set 0 2 } = .ok () after ∧ after.streams.output = [2, 1] := ⟨_, rfl, rfl⟩
  have hparameter : ∃ after, passBody ⟨2, 1⟩ (.ofEntry []) 20 (loopOn .parameter [.builtin .output, .builtin .decrement])
      { memory := (Memory.zeroed 2).set 0 2, frames := #[0] } = .ok () after := ⟨_, rfl⟩
  intro limits program body other machine called
  obtain ⟨counted, hcounted, houtput⟩ := hliteral
  obtain ⟨returned, hreturned⟩ := hparameter
  have hbody : checkBrackets body = .ok () := rfl
  have hother : checkBrackets other = .ok () := rfl
  obtain ⟨-, hskipped⟩ := loop_leaves_zero limits program (.literal 0) rfl body other hbody (by decide) hother (by decide) 20 machine
    counted hcounted
  obtain ⟨⟨value, address, hnamed, hcheck, hzero⟩, hcalled⟩ := loop_leaves_zero limits program .parameter rfl body other hbody
    (by decide) hother (by decide) 20 called returned hreturned
  refine ⟨hbody, by decide, hother, by decide, ⟨counted, hcounted, houtput, hskipped⟩, returned, hreturned, rfl, ?_, hcalled⟩
  obtain rfl : 0 = value := Option.some.inj hnamed
  obtain rfl : 0 = address := Except.ok.inj hcheck
  exact hzero

end Machine

end Bracketry
