import Bracketry.Eval.Trace
import Bracketry.Proofs.Called

/-!
# One body after another

A pass that has read the first of two bodies to its end has nothing left of it, so the second is read as if it stood alone. No step in
the first looks beyond its end, and no place to go back to stands in front of the second.

* `Pass.extend` : a pass over a body with more tokens behind it;
* `Pass.step_extend`, `Pass.exists_run_extend` : one token, and a pass that ends well;
* `evaluate_append` : two bodies in a row, on any backend and on a machine.
-/

namespace Bracketry

variable {σ V A : Type}

namespace Pass
variable {b : Backend σ V A} {program : Program} (after : List Token)

/-- The pass at the same place, with more tokens behind the body. -/
def extend (pass : Pass V A) : Pass V A := ⟨pass.rest ++ after, pass.stack, pass.loops.map (· ++ after)⟩

variable {after}

/-! ## One token -/

/-- A body that is skipped ends where it ended. -/
theorem skipBody_append {depth : Nat} {tokens rest : List Token} (h : skipBody depth tokens = some rest) :
    skipBody depth (tokens ++ after) = some (rest ++ after) := by
  induction tokens generalizing depth with
  | nil => cases h
  | cons token tokens ih =>
    cases token with
    | opening kind =>
      cases kind with
      | conditional => exact ih h
      | _ => cases depth <;> exact ih h
    | closing kind =>
      cases kind with
      | conditional =>
        cases depth with
        | zero =>
          obtain rfl := Option.some.inj h
          rfl
        | succ depth => exact ih h
      | _ => cases depth <;> exact ih h
    | _ => cases depth <;> exact ih h

theorem hands_extend {pass next : Pass V A} {entry : Entry V A} {s s' : σ} (h : Hands b program pass entry s (.ok next s')) :
    Hands b program (pass.extend after) entry s (.ok (next.extend after) s') := by
  generalize hr : EStateM.Result.ok next s' = r at h
  induction h with
  | kept inside =>
    cases hr
    exact .kept inside
  | dropped inside spent =>
    cases hr
    exact .dropped inside spent
  | acted inside act =>
    cases hr
    exact .acted inside act
  | bound stack read test =>
    cases hr
    exact .bound stack read test
  | skipped stack read test skip loops _ ih =>
    exact .skipped stack read test (skipBody_append skip) (congrArg (List.map (· ++ after)) loops) (ih hr)
  | _ => cases hr

/-- A token does the same in front of more tokens. -/
theorem step_extend {pass next : Pass V A} {token : Token} {s s' : σ} (h : step b program pass token s = .ok next s') :
    step b program (pass.extend after) token s = .ok (next.extend after) s' := by
  refine step_eq_iff.2 ?_
  cases step_eq_iff.1 h with
  | handed plain hands => exact .handed plain (hands_extend hands)
  | opened => exact .opened
  | entered enter => exact .entered enter
  | closed taken act hands => exact .closed taken act (hands_extend hands)
  | again dropped exit loops => exact .again dropped exit (congrArg (List.map (· ++ after)) loops)
  | left dropped exit loops hands => exact .left dropped exit (congrArg (List.map (· ++ after)) loops) (hands_extend hands)

/-! ## Whole passes -/

theorem eq_empty_of_finish {stack : List (Entry V A)} {loops : List (List Token)} {s s' : σ}
    (h : finish b ⟨[], stack, loops⟩ s = .ok () s') : stack = [] ∧ loops = [] ∧ s = s' := by
  unfold finish at h
  split at h
  · next hempty =>
    obtain ⟨hstack, hloops⟩ := Bool.and_eq_true_iff.1 hempty
    exact ⟨List.isEmpty_iff.1 hstack, List.isEmpty_iff.1 hloops, (EStateM.Result.ok.inj h).2⟩
  · cases h

/-- With more tokens behind it, a pass that ends well goes on with these tokens alone, after so many units of fuel. -/
theorem exists_run_extend {fuel : Nat} {pass : Pass V A} {s s' : σ} (h : run b program fuel pass s = .ok () s') :
    ∃ spent, ∀ more, run b program (spent + more) (pass.extend after) s = run b program more { rest := after } s' := by
  have hfinish : ∀ {stack : List (Entry V A)} {loops : List (List Token)} {s : σ},
      finish b ⟨[], stack, loops⟩ s = .ok () s' →
      ∃ spent, ∀ more, run b program (spent + more) (Pass.extend after ⟨[], stack, loops⟩) s =
        run b program more { rest := after } s' := by
    intro stack loops s h
    obtain ⟨rfl, rfl, rfl⟩ := eq_empty_of_finish h
    exact ⟨0, fun more => by rw [Nat.zero_add]; rfl⟩
  induction fuel generalizing pass s with
  | zero =>
    obtain ⟨tokens, stack, loops⟩ := pass
    cases tokens with
    | nil => exact hfinish h
    | cons token tokens => cases h
  | succ fuel ih =>
    obtain ⟨tokens, stack, loops⟩ := pass
    cases tokens with
    | nil => exact hfinish h
    | cons token tokens =>
      have hrun : (step b program ⟨tokens, stack, loops⟩ token >>= run b program fuel) s = .ok () s' := h
      obtain ⟨next, mid, hstep, hrest⟩ := Action.of_bind_eq_ok hrun
      obtain ⟨spent, hspent⟩ := ih hrest
      refine ⟨spent + 1, fun more => ?_⟩
      rw [Nat.add_right_comm, ← hspent more]
      exact Action.bind_of_ok (step_extend hstep)

end Pass

/-! ## Two bodies in a row -/

variable {program : Program} {first second : List Token} {fuel : Nat}

/-- If the first of two bodies ends well, both in a row end as the second does from there on. -/
theorem evaluate_append_iff {b : Backend σ V A} {s mid : σ} {r : EStateM.Result Stop σ Unit}
    (h : evaluate b program fuel first s = .ok () mid) (hr : ¬Exhausted r) :
    (∃ fuel, evaluate b program fuel (first ++ second) s = r) ↔ ∃ fuel, evaluate b program fuel second mid = r := by
  obtain ⟨spent, hspent⟩ := Pass.exists_run_extend h
  constructor
  · rintro ⟨more, rfl⟩
    have henough := (Pass.run_below_of_le program b (Nat.le_add_left more spent) _).eq_of_not_exhausted hr
    exact ⟨more, (hspent more).symm.trans henough⟩
  · rintro ⟨more, rfl⟩
    exact ⟨spent + more, hspent more⟩

namespace Machine
variable {limits : Limits}

/-- Fuel for the calls and fuel for the tokens may be taken from one supply. -/
theorem evaluate_below_passBody (calls tokens : Nat) (body : List Token) :
    Below (evaluate (backend limits program calls) program tokens body)
      (passBody limits program (max calls tokens + 1) body) := by
  rw [passBody, backend_eq, backend_eq]
  have hcalls : ∀ called, Below (passBody limits program calls called) (passBody limits program (max calls tokens) called) :=
    passBody_below_of_le (Nat.le_max_left calls tokens)
  exact (Pass.run_below program (backendWith_below fun _ called _ => hcalls called) tokens _).trans
    (Pass.run_below_of_le program _ (Nat.le_max_right calls tokens) _)

theorem passBody_append_iff {machine mid : Machine} {r : EStateM.Result Stop Machine Unit}
    (h : passBody limits program fuel first machine = .ok () mid) (hr : ¬Exhausted r) :
    (∃ fuel, passBody limits program fuel (first ++ second) machine = r) ↔
      ∃ fuel, passBody limits program fuel second mid = r := by
  -- With enough fuel for the calls of both bodies the operations of one and the same backend are asked for.
  have hfirst : ∀ more, evaluate (backend limits program (max fuel more)) program (max fuel more) first machine = .ok () mid := by
    intro more
    have hle : fuel ≤ max fuel more + 1 := Nat.le_succ_of_le (Nat.le_max_left fuel more)
    exact ((passBody_below_of_le hle first).eq_of_not_exhausted (by rw [h]; exact id)).trans h
  have hlift : ∀ {body : List Token} {start : Machine} {more : Nat}, passBody limits program more body start = r →
      ∃ tokens, evaluate (backend limits program (max fuel more)) program tokens body start = r := by
    rintro body start more rfl
    have hle : more ≤ max fuel more + 1 := Nat.le_succ_of_le (Nat.le_max_right fuel more)
    exact ⟨max fuel more, (passBody_below_of_le hle body).eq_of_not_exhausted hr⟩
  have hlower : ∀ {body : List Token} {start : Machine} {calls : Nat},
      (∃ tokens, evaluate (backend limits program calls) program tokens body start = r) →
      ∃ more, passBody limits program more body start = r := by
    rintro body start calls ⟨tokens, rfl⟩
    exact ⟨_, (evaluate_below_passBody calls tokens body).eq_of_not_exhausted hr⟩
  constructor
  · rintro ⟨more, hmore⟩
    exact hlower ((evaluate_append_iff (hfirst more) hr).1 (hlift hmore))
  · rintro ⟨more, hmore⟩
    exact hlower ((evaluate_append_iff (hfirst more) hr).2 (hlift hmore))

end Machine

/-- Whatever two bodies consist of, nested or not: if the first ends well, then both in a row end if and only if the second ends from
the state that the first leaves, with the same result, be it an error or none, and the same state. So it is on every backend, and so it
is on a machine, where the fuel is also that of the calls. -/
theorem evaluate_append (program : Program) (first second : List Token) :
    (∀ (b : Backend σ V A) (fuel : Nat) (s mid : σ) (r : EStateM.Result Stop σ Unit),
      evaluate b program fuel first s = .ok () mid → ¬Exhausted r →
        ((∃ fuel, evaluate b program fuel (first ++ second) s = r) ↔ ∃ fuel, evaluate b program fuel second mid = r)) ∧
    ∀ (limits : Limits) (fuel : Nat) (machine mid : Machine) (r : EStateM.Result Stop Machine Unit),
      Machine.passBody limits program fuel first machine = .ok () mid → ¬Exhausted r →
        ((∃ fuel, Machine.passBody limits program fuel (first ++ second) machine = r) ↔
          ∃ fuel, Machine.passBody limits program fuel second mid = r) :=
  ⟨fun _ _ _ _ _ h hr => evaluate_append_iff h hr, fun _ _ _ _ _ h hr => Machine.passBody_append_iff h hr⟩

/-- `( 0 - )` takes one turn and is skipped then. Behind it `[ 1 ] ]` is refused at its last bracket, as it is alone, and so it is
behind `[ 0 3 . ]` on a machine. -/
theorem evaluate_append_of_loop :
    let loop : List Token := [.opening .conditional, .literal 0, .builtin .decrement, .closing .conditional]
    let stored : List Token := [.opening .applicator, .literal 0, .literal 3, .builtin .output, .closing .applicator]
    let second : List Token := [.opening .applicator, .literal 1, .closing .applicator, .closing .applicator]
    let refused : Stop := .fault (.structural .applicatorNotOpened)
    let start : Trace := { tests := [true, false], exits := [true] }
    let machine : Machine := { memory := .zeroed 2 }
    (∃ mid last, evaluate Trace.backend (.ofEntry []) 5 loop start = .ok () mid ∧
      evaluate Trace.backend (.ofEntry []) 4 second mid = .error refused last ∧
      ∃ fuel, evaluate Trace.backend (.ofEntry []) fuel (loop ++ second) start = .error refused last) ∧
    ∃ mid last, Machine.passBody ⟨2, 0⟩ (.ofEntry []) 6 stored machine = .ok () mid ∧ mid.streams.output = [3] ∧
      Machine.passBody ⟨2, 0⟩ (.ofEntry []) 5 second mid = .error refused last ∧
      ∃ fuel, Machine.passBody ⟨2, 0⟩ (.ofEntry []) fuel (stored ++ second) machine = .error refused last := by
  intro loop stored second refused start machine
  obtain ⟨htrace, -⟩ := @evaluate_append Trace String String (.ofEntry []) loop second
  obtain ⟨-, hmachine⟩ := @evaluate_append Trace String String (.ofEntry []) stored second
  let mid := Machine.after (Machine.passBody ⟨2, 0⟩ (.ofEntry []) 6 stored machine)
  let last := Machine.after (Machine.passBody ⟨2, 0⟩ (.ofEntry []) 5 second mid)
  have hmid : Machine.passBody ⟨2, 0⟩ (.ofEntry []) 6 stored machine = .ok () mid := rfl
  have hlast : Machine.passBody ⟨2, 0⟩ (.ofEntry []) 5 second mid = .error refused last := rfl
  refine ⟨⟨_, _, rfl, rfl, ?_⟩, mid, last, hmid, rfl, hlast, ?_⟩
  · exact (htrace Trace.backend 5 start _ _ rfl id).2 ⟨4, rfl⟩
  · exact (hmachine ⟨2, 0⟩ 6 machine mid _ hmid id).2 ⟨5, hlast⟩

end Bracketry
