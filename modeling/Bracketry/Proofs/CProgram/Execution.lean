import Bracketry.Proofs.CProgram.Listing
import Bracketry.Proofs.Effects
import Bracketry.Proofs.Recursion

/-!
# Running the C program

The meaning of the part of C that programs are written in.

* `CProgram.State` : the array, the input that is left, and the output so far;
* `Expr.eval` : the value of an expression. Cells are read when the statement is executed, not before;
* `Statement.exec`, `Code.exec` : a statement and a block. They say whether execution goes on behind them or leaves the loop;
* `Listing.call`, `Listing.run` : a routine with an argument, and the whole program on a zeroed array;
* `Listing.EndsWith` : the program terminates with some output and some contents of the array.

Loops take as many turns as there is fuel, and each call has one unit of fuel less than the routine that makes it.
-/

namespace Bracketry

def Memory.locate (memory : Memory) (index : Int) : Except Error Nat :=
  if 0 ≤ index ∧ index < memory.size then .ok index.toNat else .error (.addressOutOfRange (Int64.ofInt index))

namespace CProgram

structure State where
  memory : Memory
  input : List UInt8
  output : List UInt8 := []
deriving DecidableEq

/-- The value of an expression on an array, in a routine with that argument. -/
def Expr.eval (memory : Memory) (argument : Option UInt32) : Expr → Except Error Int
  | literal value => .ok value.toInt
  | parameter => match argument with
    | some address => .ok address.toNat
    | none => .error .argumentOutsideApplication
  | cell index => do
    let address ← memory.locate (← index.eval memory argument)
    return (memory.value address).toNat

namespace State

def value (argument : Option UInt32) (e : Expr) : Action State Int := fun state =>
  Action.ofExcept (e.eval state.memory argument) state

def locate (argument : Option UInt32) (e : Expr) : Action State Nat := fun state =>
  Action.ofExcept (e.eval state.memory argument >>= state.memory.locate) state

def load (address : Nat) : Action State UInt8 := fun state => .ok (state.memory.value address) state

def store (address : Nat) (byte : UInt8) : Action State Unit := fun state =>
  .ok () { state with memory := state.memory.set address byte }

def put (byte : UInt8) : Action State Unit := fun state => .ok () { state with output := state.output ++ [byte] }

/-- Reads a byte, zero at the end of the input. -/
def get : Action State UInt8 := fun state =>
  match state.input with
  | [] => .ok 0 state
  | byte :: input => .ok byte { state with input }

end State

open State

/-- Executes a statement and says whether execution goes on behind it. Cells hold bytes and arguments 32 bits; what is stored
in them loses the others. -/
def Statement.exec (argument : Option UInt32) (callRoutine : String → UInt32 → Action State Unit) :
    Statement → Action State Bool
  | increment e => do
    let address ← locate argument e
    store address ((← load address) + 1)
    return true
  | decrement e => do
    let address ← locate argument e
    store address ((← load address) - 1)
    return true
  | put e => do
    State.put (← load (← locate argument e))
    return true
  | get e => do
    let address ← locate argument e
    store address (← State.get)
    return true
  | assign e source => do
    let address ← locate argument e
    store address (UInt8.ofInt (← value argument source))
    return true
  | call name source => do
    callRoutine name (UInt32.ofInt (← value argument source))
    return true
  | leaveUnless e => return (← load (← locate argument e)) != 0
  | loop | close => return true

def Code.exec (argument : Option UInt32) (callRoutine : String → UInt32 → Action State Unit) (fuel : Nat) :
    Code → Action State Bool
  | done => return true
  | statement s _ rest => do
    if ← s.exec argument callRoutine then rest.exec argument callRoutine fuel
    else return false
  | loop body rest => do
    Action.repeating (body.exec argument callRoutine fuel) fuel
    rest.exec argument callRoutine fuel

def execLines (argument : Option UInt32) (callRoutine : String → UInt32 → Action State Unit) (fuel : Nat)
    (lines : List Line) : Action State Unit := do
  let _ ← (Code.ofLines lines).exec argument callRoutine fuel

namespace Listing
variable (listing : Listing)

def call : Nat → String → UInt32 → Action State Unit
  | 0, _, _ => Action.exhausted
  | fuel + 1, name, argument => match listing.routines.lookup name with
    | none => Action.fault (.unknownToken name)
    | some lines => execLines (some argument) (call fuel) fuel lines

/-- Executes the program on an input, its array zeroed. -/
def run (fuel : Nat) (input : List UInt8) : EStateM.Result Stop State Unit :=
  execLines none (listing.call fuel) fuel listing.main { memory := .zeroed listing.dataSize, input }

/-- On this input the program terminates, with this output and these contents of the array. -/
def EndsWith (input output : List UInt8) (memory : Memory) : Prop :=
  ∃ fuel state, listing.run fuel input = .ok () state ∧ state.output = output ∧ state.memory = memory

end Listing

/-! ## Blocks -/

section
variable {argument : Option UInt32} {callRoutine : String → UInt32 → Action State Unit} {fuel : Nat}

theorem Code.exec_append (code after : Code) :
    (code.append after).exec argument callRoutine fuel = (do
      if ← code.exec argument callRoutine fuel then after.exec argument callRoutine fuel
      else return false) := by
  induction code with
  | done => rfl
  | statement s plain rest ih =>
    rw [append, exec, exec, ih, bind_assoc]
    refine congrArg _ (funext fun goesOn => ?_)
    cases goesOn <;> rfl
  | loop body rest _ ih => rw [append, exec, exec, ih, bind_assoc]

/-- Only a test leaves a loop. -/
theorem Statement.exec_eq_true {s : Statement} (h : ∀ e, s ≠ .leaveUnless e) :
    s.exec argument callRoutine = (s.exec argument callRoutine >>= fun _ => pure true) := by
  cases s with
  | leaveUnless e => exact absurd rfl (h e)
  | _ => simp only [Statement.exec, bind_assoc, pure_bind]

end

end CProgram

end Bracketry
