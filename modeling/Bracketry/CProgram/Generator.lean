import Bracketry.CProgram.Statement
import Bracketry.Eval.Pass
import Bracketry.Limits

/-!
# From a body to lines of C

The evaluator asks for the same operations as in a run, and each becomes a line of C. Every conditional is passed over once.

* `CProgram.Generator` : the lines so far and the depth of the block that the next one belongs to;
* `CProgram.Generator.backend` : the line of each operation. Addresses that are numbers are checked, all others are not known
  yet;
* `CProgram.generate` : the lines of a body.
-/

namespace Bracketry.CProgram

/-- A routine that is being written. -/
structure Generator where
  /-- The depth of the next line. -/
  depth : Nat := 1
  lines : Array Line := #[]
deriving DecidableEq, Repr

namespace Generator

def emit (statement : Statement) : Action Generator Unit :=
  modify fun ⟨depth, lines⟩ => ⟨depth, lines.push ⟨depth, statement⟩⟩

def indent : Action Generator Unit := modify fun ⟨depth, lines⟩ => ⟨depth + 1, lines⟩

/-- Goes out of a block; there is nothing outside depth zero. -/
def outdent : Action Generator Unit := modify fun ⟨depth, lines⟩ => ⟨depth - 1, lines⟩

/-- A value as an address. A number must name a cell. -/
def address (limits : Limits) : Expr → Action Generator Expr
  | .literal value => do
    discard (Action.ofExcept (limits.checkAddress value))
    return .literal value
  | value => pure value

/-- The line of a builtin; nothing needs none. -/
def applyBuiltin (address : Expr) : Builtin → Action Generator Unit
  | .increment => emit (.increment address)
  | .decrement => emit (.decrement address)
  | .output => emit (.put address)
  | .input => emit (.get address)
  | .nop => pure ()

/-- The line of each operation. Only the body of an application has an argument. -/
def backend (limits : Limits) (inApplication : Bool) : Backend Generator Expr Expr where
  literal value := pure (.literal value)
  parameter := if inApplication then pure .parameter else Action.fault .argumentOutsideApplication
  resolveAccessor := address limits
  applyBuiltin := applyBuiltin
  assign address value := emit (.assign address value)
  call name address := emit (.call name address)
  resolve address := pure address.cell
  enterLoop := do
    emit .loop
    indent
  testLoop address := do
    emit (.leaveUnless address)
    return .run
  exitLoop _ := do
    outdent
    emit .close
    return .done
  describe := Expr.describe

end Generator

/-- Writes the lines of a body. Fuel for its length is enough, since no token is read twice. -/
def generate (limits : Limits) (program : Program) (inApplication : Bool) (body : List Token) :
    EStateM.Result Stop Generator Unit :=
  (evaluate (Generator.backend limits inApplication) program body.length body).run {}

end Bracketry.CProgram
