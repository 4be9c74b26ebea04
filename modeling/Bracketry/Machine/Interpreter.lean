import Bracketry.Eval.Pass
import Bracketry.Limits
import Bracketry.Machine.Memory
import Bracketry.Machine.Streams

/-!
# The interpreter

* `Machine` : memory, streams, and the arguments of the applications that are active;
* `Machine.cell`, `Machine.store`, `Machine.readByte`, `Machine.writeByte` : the effects of a program;
* `Machine.backend` : the operations of a body on a machine. Calls evaluate the body of the application with one unit of
  fuel less;
* `Machine.run` : a whole program, with a last flush of its output;
* `interpret` : a program from zeroed memory on some input.
-/

namespace Bracketry

structure Machine where
  memory : Memory
  streams : Streams := {}
  /-- The arguments of the active applications, innermost last. -/
  frames : Array Nat := #[]
deriving DecidableEq

namespace Machine

/-! ## Effects -/

/-- An address as it is shown to programs and in errors: its low 64 bits, as a signed number. -/
def shown (address : Nat) : Int64 := Int64.ofNat address

@[inline] def cell (address : Nat) : Action Machine UInt8 := fun machine =>
  match machine.memory.get? address with
  | some value => .ok value machine
  | none => .error (.fault (.addressOutOfRange (shown address))) machine

def store (address : Nat) (value : UInt8) : Action Machine Unit := fun ⟨memory, streams, frames⟩ =>
  if address < memory.size then .ok () ⟨memory.set address value, streams, frames⟩
  else .error (.fault (.addressOutOfRange (shown address))) ⟨memory, streams, frames⟩

def perform {α : Type} (operation : Streams → Except StreamFault α × Streams) : Action Machine α :=
  fun ⟨memory, streams, frames⟩ =>
    match operation streams with
    | (.ok a, streams) => .ok a ⟨memory, streams, frames⟩
    | (.error fault, streams) => .error (.fault (.stream fault)) ⟨memory, streams, frames⟩

/-- Reads a byte, after a flush so that everything written is to be seen before the program waits. -/
def readByte : Action Machine UInt8 := do
  perform Streams.flush
  perform Streams.read

def writeByte (value : UInt8) : Action Machine Unit := perform (Streams.write value)

/-- Applies a builtin to a cell. Arithmetic is modulo 256. The byte for an input is read before the cell is looked at. -/
def applyBuiltin (address : Nat) : Builtin → Action Machine Unit
  | .increment => do store address ((← cell address) + 1)
  | .decrement => do store address ((← cell address) - 1)
  | .output => do writeByte (← cell address)
  | .input => do store address (← readByte)
  | .nop => pure ()

/-- The argument of the innermost active application, as a number. -/
def argument : Action Machine Int64 := fun machine =>
  match machine.frames.back? with
  | some address => .ok (shown address) machine
  | none => .error (.fault .argumentOutsideApplication) machine

/-- Performs an action with one more application active; afterwards it is not, whatever happened. -/
def inFrame (address : Nat) (action : Action Machine Unit) : Action Machine Unit := fun ⟨memory, streams, frames⟩ =>
  match action ⟨memory, streams, frames.push address⟩ with
  | .ok () ⟨memory, streams, frames⟩ => .ok () ⟨memory, streams, frames.pop⟩
  | .error stop ⟨memory, streams, frames⟩ => .error stop ⟨memory, streams, frames.pop⟩

/-- Calls a body by its name, the entry point included. The number of active applications is looked at before the name. -/
def call (limits : Limits) (program : Program) (evaluateBody : List Token → Action Machine Unit)
    (name : String) (address : Nat) : Action Machine Unit := do
  if limits.maxCallDepth ≤ (← get).frames.size then Action.fault (.callDepthExceeded limits.maxCallDepth)
  match program.body? name with
  | none => Action.fault (.unknownToken name)
  | some body => inFrame address (evaluateBody body)

/-! ## The backend -/

/-- The operations of a body on a machine. `evaluateBody` is what becomes of the body of a called application. -/
def backendWith (limits : Limits) (program : Program) (evaluateBody : List Token → Action Machine Unit) :
    Backend Machine Int64 Nat where
  literal value := pure value
  parameter := argument
  resolveAccessor value := Action.ofExcept (limits.checkAddress value)
  applyBuiltin := applyBuiltin
  assign address value := store address value.toUInt64.toUInt8
  call := call limits program evaluateBody
  resolve address := return Int64.ofNat (← cell address).toNat
  enterLoop := pure ()
  testLoop address := return if (← cell address) = 0 then .skip else .run
  exitLoop _ := pure .again
  describe value := toString value.toInt

/-- The operations of a body on a machine. Each call has one unit of fuel less than the body that makes it. -/
def backend (limits : Limits) (program : Program) : Nat → Backend Machine Int64 Nat
  | 0 => backendWith limits program fun _ => Action.exhausted
  | fuel + 1 => backendWith limits program fun body => evaluate (backend limits program fuel) program fuel body

/-! ## Whole programs -/

def evaluateEntry (limits : Limits) (program : Program) (fuel : Nat) : Action Machine Unit :=
  evaluate (backend limits program fuel) program fuel program.entry

/-- Runs a program: evaluates its entry point and flushes the output, also after an error. A flush that fails is the result
of the run. -/
def run (limits : Limits) (program : Program) (fuel : Nat) : Action Machine Unit := fun machine =>
  match evaluateEntry limits program fuel machine with
  | .error .outOfFuel machine => .error .outOfFuel machine
  | .ok () machine => perform Streams.flush machine
  | .error (.fault error) machine =>
    match perform Streams.flush machine with
    | .ok () machine => .error (.fault error) machine
    | .error stop machine => .error stop machine

def resultOf {α : Type} : EStateM.Result Stop Machine α → Except Stop α
  | .ok a _ => .ok a
  | .error stop _ => .error stop

def after {α : Type} : EStateM.Result Stop Machine α → Machine
  | .ok _ machine => machine
  | .error _ machine => machine

/-- More steps than any machine takes in its lifetime. -/
def lifetime : Nat := Nat.pow 2 62

end Machine

/-- Runs a program from zeroed memory on some input. -/
def interpret (limits : Limits) (program : Program) (fuel : Nat) (input : List UInt8) :
    EStateM.Result Stop Machine Unit :=
  Machine.run limits program fuel { memory := .zeroed limits.dataSize, streams := .ofInput input }

end Bracketry
