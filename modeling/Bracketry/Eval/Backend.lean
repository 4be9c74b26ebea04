import Bracketry.Error

/-!
# Backends

The evaluator finds out which operations a body asks for and in which order; a backend says what they do.

* `Stop` : why an action ends without a value, be it an error or the end of the fuel;
* `Action` : what changes the state of a backend and may stop;
* `LoopEntry`, `LoopExit` : the answers of a backend at the two ends of a conditional;
* `Backend` : the operations.
-/

namespace Bracketry

/-- Why an action ends without a value. -/
inductive Stop where
  /-- The program is at fault, or a stream is. -/
  | fault (error : Error)
  /-- The number of steps allowed was too small to tell. -/
  | outOfFuel
deriving DecidableEq, Repr

/-- An action on a state. When it stops, the state is the one at that moment. -/
abbrev Action (σ : Type) := EStateM Stop σ

namespace Action
variable {σ α : Type}

def fault (error : Error) : Action σ α := throw (.fault error)

def structureFault (cause : StructureFault) : Action σ α := fault (.structural cause)

def exhausted : Action σ α := throw .outOfFuel

@[inline] def ofExcept : Except Error α → Action σ α
  | .ok a => pure a
  | .error error => fault error

end Action

/-- What happens to a conditional whose accessor has been resolved. -/
inductive LoopEntry where
  | run
  /-- The pass goes on behind its closing bracket. -/
  | skip
deriving DecidableEq, Repr

/-- What happens at the closing bracket of a conditional. -/
inductive LoopExit where
  /-- The accessor is read and tested once more. -/
  | again
  | done
deriving DecidableEq, Repr

/-- What the operations of a body do. Values are what an accessor or an operand can be, addresses are accessors that
have been checked. -/
structure Backend (σ V A : Type) where
  literal : Int64 → Action σ V
  /-- The value of the argument of the application that is being evaluated. -/
  parameter : Action σ V
  /-- A value as an address. -/
  resolveAccessor : V → Action σ A
  applyBuiltin : A → Builtin → Action σ Unit
  assign : A → V → Action σ Unit
  /-- Calls an application with an address as its argument. -/
  call : String → A → Action σ Unit
  /-- The value that an applicator on an address has as an operand. -/
  resolve : A → Action σ V
  enterLoop : Action σ Unit
  /-- The accessor of a conditional has been resolved. -/
  testLoop : A → Action σ LoopEntry
  exitLoop : A → Action σ LoopExit
  /-- A value as it is shown in an error. -/
  describe : V → String

end Bracketry
