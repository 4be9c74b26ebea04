import Bracketry.Machine.Interpreter
import Bracketry.Proofs.Adequacy
import Bracketry.Proofs.Program.Names

/-!
# Called bodies

A machine evaluates the body of an application whenever a body calls it, so a pass contains passes.

* `Machine.passBody`, `Machine.forestBody` : a body with all it calls, by passes and by recursion over its brackets;
* `Program.Closed` : every body of the program closes;
* `Machine.passBody_below`, `Machine.passBody_settles` : in a closed program both are one evaluation;
* `Machine.forestBody_unique` : a body ends in one way at most;
* `Machine.run_eq`, `Machine.run_eq_ok_iff` : a run is its entry point and a last flush;
* `Machine.run_of_le` : more fuel changes nothing but a lack of fuel;
* `Machine.exists_forestBody_of_interpret`, `Machine.exists_interpret_of_forestBody` : running a program is evaluating its entry
  point by recursion and flushing the output.
-/

namespace Bracketry

/-- Every body of the program closes its brackets. -/
def Program.Closed (program : Program) : Prop := ∀ name body, program.body? name = some body → Closes [] body

theorem Program.Closed.entry {program : Program} (h : program.Closed) : Closes [] program.entry := by
  unfold Program.entry
  cases hbody : program.body? entryName with
  | none => exact .nil
  | some body => exact h entryName body hbody

/-- What a body may call has a body, and it is not the entry point. -/
theorem Program.exists_body_of_isApplication {program : Program} {name : String} (h : program.isApplication name = true) :
    ∃ body, program.body? name = some body ∧ name ≠ entryName := by
  obtain ⟨body, hlookup⟩ := isApplication_iff.1 h
  obtain ⟨hne, hbody⟩ := lookup_applications_eq_some_iff.1 hlookup
  exact ⟨body, hbody, hne⟩

namespace Machine
variable (limits : Limits) (program : Program)

/-- A body and the bodies that it calls, each by a pass. -/
def passBody : Nat → List Token → Action Machine Unit
  | 0, _ => Action.exhausted
  | fuel + 1, body => evaluate (backend limits program fuel) program fuel body

/-- A body and the bodies that it calls, each by recursion over its brackets. -/
def forestBody : Nat → List Token → Action Machine Unit
  | 0, _ => Action.exhausted
  | fuel + 1, body =>
    (Forest.ofTokens body).evaluate (backendWith limits program (forestBody fuel)) program fuel

theorem backend_eq (fuel : Nat) : backend limits program fuel = backendWith limits program (passBody limits program fuel) := by
  cases fuel <;> rfl

theorem evaluateEntry_eq (fuel : Nat) :
    evaluateEntry limits program fuel = passBody limits program (fuel + 1) program.entry := rfl

/-! ## Calls -/

def leaveFrame : EStateM.Result Stop Machine Unit → EStateM.Result Stop Machine Unit
  | .ok () machine => .ok () { machine with frames := machine.frames.pop }
  | .error stop machine => .error stop { machine with frames := machine.frames.pop }

theorem inFrame_eq (address : Nat) (action : Action Machine Unit) (machine : Machine) :
    inFrame address action machine = leaveFrame (action { machine with frames := machine.frames.push address }) := by
  obtain ⟨memory, streams, frames⟩ := machine
  unfold inFrame
  dsimp only
  cases action ⟨memory, streams, frames.push address⟩ <;> rfl

theorem exhausted_leaveFrame {r : EStateM.Result Stop Machine Unit} (h : Exhausted r) : Exhausted (leaveFrame r) := by
  cases r with
  | ok _ machine => exact h.elim
  | error stop machine =>
    cases stop with
    | fault error => exact h.elim
    | outOfFuel => exact trivial

theorem exhausted_of_leaveFrame {r : EStateM.Result Stop Machine Unit} (h : Exhausted (leaveFrame r)) : Exhausted r := by
  cases r with
  | ok _ machine => exact h
  | error stop machine => cases stop <;> exact h

section
variable {limits program}

/-- A call looks at the number of active applications, then at the name. -/
theorem call_eq (evaluateBody : List Token → Action Machine Unit) (name : String) (address : Nat) (machine : Machine) :
    call limits program evaluateBody name address machine =
      if limits.maxCallDepth ≤ machine.frames.size then
        .error (.fault (.callDepthExceeded limits.maxCallDepth)) machine
      else match program.body? name with
        | none => .error (.fault (.unknownToken name)) machine
        | some body => inFrame address (evaluateBody body) machine := by
  by_cases hdepth : limits.maxCallDepth ≤ machine.frames.size
  · rw [if_pos hdepth]
    unfold call
    rw [Action.bind_of_ok (rfl : (get : Action Machine Machine) machine = .ok machine machine)]
    simp only [if_pos hdepth]
    rfl
  · rw [if_neg hdepth]
    unfold call
    rw [Action.bind_of_ok (rfl : (get : Action Machine Machine) machine = .ok machine machine)]
    simp only [if_neg hdepth]
    cases program.body? name <;> rfl

theorem call_below {evaluateBody evaluateBody' : List Token → Action Machine Unit}
    (h : ∀ name body, program.body? name = some body → Below (evaluateBody body) (evaluateBody' body)) (name : String)
    (address : Nat) :
    Below (call limits program evaluateBody name address) (call limits program evaluateBody' name address) := by
  intro machine
  rw [call_eq, call_eq]
  split
  · exact .inr rfl
  · cases hbody : program.body? name with
    | none => exact .inr rfl
    | some body =>
      simp only [inFrame_eq]
      rcases h name body hbody { machine with frames := machine.frames.push address } with h | h
      · exact .inl (exhausted_leaveFrame h)
      · exact .inr (congrArg leaveFrame h)

/-- Calls settle if the bodies under every name do, also if they are those of another program. -/
theorem call_settles {other : Program} {evaluateBodies : Nat → List Token → Action Machine Unit}
    {evaluateBody : List Token → Action Machine Unit}
    (h : ∀ name, Option.Rel (fun body body' => Settles (fun k _ => evaluateBodies k body') (evaluateBody body))
      (program.body? name) (other.body? name)) (name : String) (address : Nat) :
    Settles (fun k _ => call limits other (evaluateBodies k) name address)
      (call limits program evaluateBody name address) := by
  intro machine
  have hname := h name
  simp only [call_eq]
  split
  · exact .inr ⟨0, fun _ _ _ _ => rfl⟩
  · generalize program.body? name = called at hname
    generalize other.body? name = called' at hname
    cases hname with
    | none => exact .inr ⟨0, fun _ _ _ _ => rfl⟩
    | some hbody =>
      simp only [inFrame_eq]
      rcases hbody { machine with frames := machine.frames.push address } with h | ⟨least, h⟩
      · exact .inl (exhausted_leaveFrame h)
      · exact .inr ⟨least, fun k hk j hj => congrArg leaveFrame (h k hk j hj)⟩

theorem backendWith_below {evaluateBody evaluateBody' : List Token → Action Machine Unit}
    (h : ∀ name body, program.body? name = some body → Below (evaluateBody body) (evaluateBody' body)) :
    (backendWith limits program evaluateBody).Alike (.below Machine) (backendWith limits program evaluateBody') :=
  { Backend.alike_below_refl (backendWith limits program evaluateBody) with
    call := fun name address => Relator.below_eq_iff.2 (call_below h name address) }

/-! ## Bodies -/

theorem passBody_below (hclosed : program.Closed) (fuel : Nat) {body : List Token} (hcloses : Closes [] body) :
    Below (passBody limits program fuel body) (forestBody limits program fuel body) := by
  induction fuel generalizing body with
  | zero => exact Below.exhausted _
  | succ fuel ih =>
    rw [passBody, backend_eq, forestBody]
    exact Forest.evaluate_below program (backendWith_below fun name called hcalled => ih (hclosed name called hcalled))
      hcloses (Nat.le_refl fuel)

theorem passBody_settles (hclosed : program.Closed) (fuel : Nat) {body : List Token} (hcloses : Closes [] body) :
    Settles (fun k _ => passBody limits program k body) (forestBody limits program fuel body) := by
  induction fuel generalizing body with
  | zero => exact Settles.exhausted _
  | succ fuel ih =>
    have hcalls : ∀ name address,
        Settles (fun k _ => call limits program (passBody limits program k) name address)
          (call limits program (forestBody limits program fuel) name address) := by
      refine call_settles fun name => ?_
      cases hcalled : program.body? name with
      | none => exact .none
      | some called => exact .some (ih (hclosed name called hcalled))
    have hbody : Settles
        (fun k j => evaluate (backendWith limits program (passBody limits program k)) program j body)
        (forestBody limits program (fuel + 1) body) :=
      Forest.evaluate_settles (b := backendWith limits program (forestBody limits program fuel)) hcalls hcloses
    intro machine
    rcases hbody machine with h | ⟨least, h⟩
    · exact .inl h
    -- A pass gives its calls one unit less than it has itself, and both must be enough.
    · refine .inr ⟨least + 1, fun k hk _ _ => ?_⟩
      obtain ⟨k, rfl⟩ : ∃ j, k = j + 1 := ⟨k - 1, by omega⟩
      change evaluate (backend limits program k) program k body machine = _
      rw [backend_eq]
      exact h k (by omega) k (by omega)

/-- More fuel changes nothing but a lack of fuel. -/
theorem passBody_below_succ (fuel : Nat) (body : List Token) :
    Below (passBody limits program fuel body) (passBody limits program (fuel + 1) body) := by
  induction fuel generalizing body with
  | zero => exact Below.exhausted _
  | succ fuel ih =>
    change Below (evaluate (backend limits program fuel) program fuel body)
      (evaluate (backend limits program (fuel + 1)) program (fuel + 1) body)
    rw [backend_eq, backend_eq]
    exact (Pass.run_below program (backendWith_below fun _ called _ => ih called) fuel _).trans
      (Pass.run_below_succ program _ fuel _)

theorem passBody_below_of_le {fuel more : Nat} (h : fuel ≤ more) (body : List Token) :
    Below (passBody limits program fuel body) (passBody limits program more body) := by
  induction h with
  | refl => exact Below.refl _
  | step _ ih => exact ih.trans (passBody_below_succ _ body)

variable {body : List Token} {machine after after' : Machine} {fuel more : Nat}

theorem exists_passBody_of_forestBody (hclosed : program.Closed) (hcloses : Closes [] body)
    (h : forestBody limits program fuel body machine = .ok () after) :
    ∃ least, ∀ k ≥ least, passBody limits program k body machine = .ok () after := by
  have hsettles : Settles (fun k _ => passBody limits program k body) (forestBody limits program fuel body) :=
    passBody_settles hclosed fuel hcloses
  rcases hsettles machine with hexhausted | ⟨least, hleast⟩
  · rw [h] at hexhausted
    exact hexhausted.elim
  · exact ⟨least, fun k hk => (hleast k hk k hk).trans h⟩

theorem forestBody_of_passBody (hclosed : program.Closed) (hcloses : Closes [] body)
    (h : passBody limits program fuel body machine = .ok () after) :
    forestBody limits program fuel body machine = .ok () after := by
  rcases passBody_below hclosed fuel hcloses machine with hexhausted | heq
  · rw [h] at hexhausted
    exact hexhausted.elim
  · exact heq.symm.trans h

/-- However much fuel there is, a body ends in one way. -/
theorem forestBody_unique (hclosed : program.Closed) (hcloses : Closes [] body)
    (h : forestBody limits program fuel body machine = .ok () after)
    (h' : forestBody limits program more body machine = .ok () after') : after = after' := by
  obtain ⟨least, hleast⟩ := exists_passBody_of_forestBody hclosed hcloses h
  obtain ⟨least', hleast'⟩ := exists_passBody_of_forestBody hclosed hcloses h'
  have heq := (hleast _ (Nat.le_max_left least least')).symm.trans (hleast' _ (Nat.le_max_right least least'))
  exact (EStateM.Result.ok.inj heq).2

/-! ## Whole programs -/

/-- What is left when a program ends: its output is flushed, unless the fuel was used up. -/
def lastFlush : EStateM.Result Stop Machine Unit → EStateM.Result Stop Machine Unit
  | .ok () machine => perform Streams.flush machine
  | .error .outOfFuel machine => .error .outOfFuel machine
  | .error (.fault error) machine =>
    match perform Streams.flush machine with
    | .ok () machine => .error (.fault error) machine
    | .error stop machine => .error stop machine

theorem run_eq (fuel : Nat) (machine : Machine) :
    run limits program fuel machine = lastFlush (passBody limits program (fuel + 1) program.entry machine) := by
  unfold run
  rw [evaluateEntry_eq]
  cases passBody limits program (fuel + 1) program.entry machine with
  | ok _ after => rfl
  | error stop after => cases stop <;> rfl

/-- A run ends well if its entry point does and the last flush succeeds. -/
theorem run_eq_ok_iff :
    run limits program fuel machine = .ok () after ↔
      ∃ before, passBody limits program (fuel + 1) program.entry machine = .ok () before ∧
        perform Streams.flush before = .ok () after := by
  rw [run_eq]
  cases passBody limits program (fuel + 1) program.entry machine with
  | ok _ before =>
    constructor
    · intro h
      exact ⟨before, rfl, h⟩
    · rintro ⟨_, heq, hflush⟩
      obtain ⟨-, rfl⟩ := EStateM.Result.ok.inj heq
      exact hflush
  | error stop before =>
    refine ⟨fun h => ?_, nofun⟩
    cases stop with
    | outOfFuel => cases h
    | fault error =>
      unfold lastFlush at h
      cases hflush : perform Streams.flush before <;> simp [hflush] at h

theorem exhausted_lastFlush {r : EStateM.Result Stop Machine Unit} (h : Exhausted r) : Exhausted (lastFlush r) := by
  cases r with
  | ok _ machine => exact h.elim
  | error stop machine =>
    cases stop with
    | fault error => exact h.elim
    | outOfFuel => trivial

theorem exhausted_iff_resultOf {r : EStateM.Result Stop Machine Unit} : Exhausted r ↔ resultOf r = .error .outOfFuel := by
  cases r with
  | ok _ machine => exact ⟨False.elim, nofun⟩
  | error stop machine =>
    cases stop with
    | fault error => exact ⟨False.elim, nofun⟩
    | outOfFuel => exact ⟨fun _ => rfl, fun _ => trivial⟩

/-- What a flush leaves alone, the last flush of a run leaves alone. -/
theorem of_lastFlush {α : Type} (f : Machine → α) (h : ∀ machine, f (Machine.after (perform Streams.flush machine)) = f machine)
    (r : EStateM.Result Stop Machine Unit) : f (Machine.after (lastFlush r)) = f (Machine.after r) := by
  cases r with
  | ok _ machine => exact h machine
  | error stop machine =>
    cases stop with
    | outOfFuel => rfl
    | fault error =>
      have hflush := h machine
      unfold lastFlush
      dsimp only
      generalize perform Streams.flush machine = flushed at hflush
      cases flushed <;> exact hflush

/-- A run that has ended is the same with more fuel. -/
theorem run_of_le (h : fuel ≤ more) (hrun : ¬Exhausted (run limits program fuel machine)) :
    run limits program more machine = run limits program fuel machine := by
  rw [run_eq] at hrun ⊢
  rcases passBody_below_of_le (Nat.succ_le_succ h) program.entry machine with hexhausted | heq
  · exact absurd (exhausted_lastFlush hexhausted) hrun
  · rw [run_eq, heq]

variable {input : List UInt8}

variable (limits input) in
/-- A machine as a program finds it: its memory zeroed, and the input ahead of it. -/
def fresh : Machine := { memory := .zeroed limits.dataSize, streams := .ofInput input }

/-- A program that ends well evaluates its entry point and flushes the output. -/
theorem exists_forestBody_of_interpret (hclosed : program.Closed)
    (h : interpret limits program fuel input = .ok () machine) :
    ∃ before, forestBody limits program (fuel + 1) program.entry (fresh limits input) = .ok () before ∧
      perform Streams.flush before = .ok () machine := by
  obtain ⟨before, hentry, hflush⟩ := run_eq_ok_iff.1 h
  exact ⟨before, forestBody_of_passBody hclosed hclosed.entry hentry, hflush⟩

theorem exists_interpret_of_forestBody (hclosed : program.Closed)
    (h : forestBody limits program fuel program.entry (fresh limits input) = .ok () after)
    (hflush : perform Streams.flush after = .ok () machine) :
    ∃ fuel, interpret limits program fuel input = .ok () machine := by
  obtain ⟨least, hleast⟩ := exists_passBody_of_forestBody hclosed hclosed.entry h
  exact ⟨least, run_eq_ok_iff.2 ⟨after, hleast (least + 1) (by omega), hflush⟩⟩

end

end Machine

end Bracketry
