import Bracketry.Eval.Backend
import Bracketry.Program.Basic

/-!
# Evaluation of a body

One pass from left to right recovers the nesting of a body with a stack. The tokens of an applicator wait on it until the
applicator closes; then the first of them becomes an address and the others are applied to it in order. The first operand of
a conditional becomes its address at once; the operands after it are applied to that address as they come. At its end a
conditional may go back to its accessor, which is then read and tested anew.

* `Entry` : what stands on the stack; the brackets on it are its markers;
* `Pass` : the tokens to come, the stack, and what follows each open round bracket;
* `Pass.step` : one token; `Pass.run` : all of them;
* `evaluate` : a whole body. Fuel is spent on tokens, one for each time a token is read.
-/

namespace Bracketry

inductive Entry (V A : Type) where
  | applicator
  /-- An open conditional, with its address once it has one. -/
  | conditional (accessor : Option A)
  /-- A token that waits for its applicator to close. -/
  | pending (token : Token)
  | resolved (value : V)
  /-- The result of a conditional, which names no cell. -/
  | void

namespace Entry
variable {V A : Type}

/-- An open bracket. -/
def isMarker : Entry V A → Bool
  | applicator | conditional _ => true
  | _ => false

def describe (value : V → String) : Entry V A → String
  | applicator => "["
  | conditional _ => "("
  | pending token => token.text
  | resolved v => value v
  | void => "( ... )"

end Entry

/-- A pass over a body between two tokens. -/
structure Pass (V A : Type) where
  rest : List Token
  /-- The open brackets and what they hold, innermost first. -/
  stack : List (Entry V A) := []
  /-- What follows each open round bracket, innermost first. -/
  loops : List (List Token) := []

/-- What follows the bracket that closes the innermost of `depth + 1` conditionals, if they all close. -/
def skipBody : Nat → List Token → Option (List Token)
  | _, [] => none
  | depth, .opening .conditional :: tokens => skipBody (depth + 1) tokens
  | 0, .closing .conditional :: tokens => some tokens
  | depth + 1, .closing .conditional :: tokens => skipBody depth tokens
  | depth, _ :: tokens => skipBody depth tokens

section Operands
variable {V A : Type}

/-- The operands of the innermost applicator in source order, in front of those given, and the stack below it. -/
def takeOperands (operands : List (Entry V A)) : List (Entry V A) → Option (List (Entry V A) × List (Entry V A))
  | .applicator :: stack => some (operands, stack)
  | [] | .conditional _ :: _ => none
  | entry :: stack => takeOperands (entry :: operands) stack

/-- The address of the innermost conditional and the stack below it. -/
def dropOperands : List (Entry V A) → Option (Option A × List (Entry V A))
  | .conditional accessor :: stack => some (accessor, stack)
  | [] | .applicator :: _ => none
  | _ :: stack => dropOperands stack

end Operands

namespace Pass
variable {σ V A : Type}

@[inline] def push (pass : Pass V A) (entry : Entry V A) : Pass V A := { pass with stack := entry :: pass.stack }

/-- The innermost open bracket. Conditionals hold no entries, so an entry on top is held by an applicator. -/
@[inline] def innermost? (pass : Pass V A) : Option (Entry V A) :=
  match pass.stack with
  | [] => none
  | entry :: _ => some (if entry.isMarker then entry else .applicator)

/-- Where an entry on top is held by an applicator, the innermost open bracket is the first marker on the stack. -/
theorem innermost?_eq_find? {pass : Pass V A}
    (h : ∀ entry ∈ pass.stack.head?, entry.isMarker = false → pass.stack.find? Entry.isMarker = some .applicator) :
    pass.innermost? = pass.stack.find? Entry.isMarker := by
  rcases hstack : pass.stack with _ | ⟨entry, stack⟩
  · simp [innermost?, hstack]
  · cases hmarker : entry.isMarker <;> simp_all [innermost?]

section Steps
variable (backend : Backend σ V A) (program : Program)

/-! ## Accessors and operands -/

/-- The address that an entry names: a number, the argument, or the value of an applicator. -/
@[inline] def accessor (entry : Entry V A) : Action σ A := do
  let value ← match entry with
    | .pending (.literal value) => backend.literal value
    | .pending .parameter => backend.parameter
    | .resolved value => pure value
    | other => Action.fault (.invalidAccessor (other.describe backend.describe))
  backend.resolveAccessor value

/-- Applies a token to a cell: builtins act on it, numbers and the argument are stored in it, applications are called. -/
def applyToken (address : A) : Token → Action σ Unit
  | .builtin op => backend.applyBuiltin address op
  | .literal value => do backend.assign address (← backend.literal value)
  | .parameter => do backend.assign address (← backend.parameter)
  | .identifier name =>
    if program.isApplication name then backend.call name address else Action.fault (.unknownToken name)
  | token => Action.fault (.unknownToken token.text)

def applyOperand (address : A) : Entry V A → Action σ Unit
  | .pending token => applyToken backend program address token
  | .resolved value => backend.assign address value
  | .void => pure ()
  | marker => Action.structureFault (.markerAmongOperands (marker.describe backend.describe))

/-! ## Conditionals -/

/-- Hands the result of a conditional to the bracket around it. -/
def deliverVoid (pass : Pass V A) : Action σ (Pass V A) :=
  match pass.innermost? with
  | some .applicator => return pass.push .void
  | some (.conditional none) => Action.fault (.invalidAccessor ((Entry.void : Entry V A).describe backend.describe))
  | none | some (.conditional (some _)) => return pass
  | some _ => Action.structureFault .markerIsValue

/-- Leaves a conditional that is off the stack already. -/
def leaveConditional (pass : Pass V A) : Action σ (Pass V A) :=
  match pass.loops with
  | [] => Action.structureFault .loopStartMissing
  | _ :: loops => deliverVoid backend { pass with loops }

/-- Takes an entry for the accessor of the innermost conditional and tests the cell. -/
def bindAccessor (pass : Pass V A) (entry : Entry V A) : Action σ (Pass V A) := do
  let address ← accessor backend entry
  match ← backend.testLoop address with
  | .run =>
    match pass.stack with
    | .conditional _ :: stack => return { pass with stack := .conditional (some address) :: stack }
    | _ => Action.structureFault .noConditionalToBind
  | .skip =>
    match skipBody 0 pass.rest with
    | none => Action.structureFault .conditionalNotClosed
    | some rest =>
      match pass.stack with
      | .conditional _ :: stack => leaveConditional backend { pass with rest, stack }
      | _ => Action.structureFault .noConditionalToSkip

/-! ## Entries and closing brackets -/

/-- Hands a token or a value to the innermost open bracket. Values that no bracket wants are dropped. -/
def deliver (pass : Pass V A) (entry : Entry V A) : Action σ (Pass V A) :=
  match pass.innermost?, entry with
  | some .applicator, entry => return pass.push entry
  | some (.conditional none), entry => bindAccessor backend pass entry
  | some (.conditional (some address)), .pending token => do
    applyToken backend program address token
    return pass
  | none, .pending token => Action.structureFault (.outsideBrackets token)
  | none, _ | some (.conditional (some _)), _ => return pass
  | some _, _ => Action.structureFault .markerIsValue

/-- Closes the innermost applicator: its operands act on its cell, and the value of the cell is handed on. -/
def closeApplicator (pass : Pass V A) : Action σ (Pass V A) :=
  match takeOperands [] pass.stack with
  | none => Action.structureFault .applicatorNotOpened
  | some ([], _) => Action.structureFault .applicatorWithoutAccessor
  | some (first :: operands, stack) => do
    let address ← accessor backend first
    operands.forM (applyOperand backend program address)
    let value ← backend.resolve address
    deliver backend program { pass with stack } (.resolved value)

/-- Closes the innermost conditional, or takes it back to its accessor. -/
def closeConditional (pass : Pass V A) : Action σ (Pass V A) :=
  match dropOperands pass.stack with
  | none => Action.structureFault .conditionalNotOpened
  | some (none, _) => Action.structureFault .conditionalWithoutAccessor
  | some (some address, stack) => do
    match ← backend.exitLoop address with
    | .again =>
      match pass.loops with
      | [] => Action.structureFault .loopStartMissing
      | start :: _ => return { pass with rest := start, stack := .conditional none :: stack }
    | .done => leaveConditional backend { pass with stack }

/-! ## The pass -/

/-- What one token does; `pass.rest` is what follows it. -/
def step (pass : Pass V A) : Token → Action σ (Pass V A)
  | .opening .applicator => return pass.push .applicator
  | .opening .conditional => do
    backend.enterLoop
    return { pass.push (.conditional none) with loops := pass.rest :: pass.loops }
  | .closing .applicator => closeApplicator backend program pass
  | .closing .conditional => closeConditional backend pass
  | .opening .definition | .closing .definition => Action.structureFault .definitionInBody
  | token => deliver backend program pass (.pending token)

/-- At the end nothing may be left on the stack. -/
def finish (pass : Pass V A) : Action σ Unit :=
  if pass.stack.isEmpty && pass.loops.isEmpty then pure ()
  else Action.structureFault (.unresolved (pass.stack.reverse.map (Entry.describe backend.describe)))

/-- Reads tokens until there are none, each time at the cost of one unit of fuel. -/
def run (fuel : Nat) (pass : Pass V A) : Action σ Unit :=
  match pass.rest with
  | [] => finish backend pass
  | token :: rest =>
    match fuel with
    | 0 => Action.exhausted
    | fuel + 1 => do
      let pass ← step backend program { pass with rest } token
      run fuel pass

end Steps

end Pass

/-- Evaluates a body: what it asks for, `backend` does. -/
def evaluate {σ V A : Type} (backend : Backend σ V A) (program : Program) (fuel : Nat) (body : List Token) :
    Action σ Unit :=
  Pass.run backend program fuel { rest := body }

end Bracketry
