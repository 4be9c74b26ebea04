import Bracketry.Eval.Pass

/-!
# Traces

A backend that does nothing but write down what a body asks for. Values and addresses are texts that say where they come from.

* `Request`, `Request.text` : one operation that was asked for, and how it is written down;
* `Trace` : the requests so far and the answers still to be given at the two ends of conditionals;
* `Trace.backend`, `Trace.ofBody` : the backend, and a whole body traced with it.
-/

namespace Bracketry

inductive Request where
  | literal (value : Int64)
  | parameter
  | accessor (value : String)
  | builtin (address : String) (op : Builtin)
  | assign (address value : String)
  | call (name address : String)
  | resolve (address : String)
  | enter
  | test (address : String) (answer : LoopEntry)
  | exit (address : String) (answer : LoopExit)
deriving DecidableEq, Repr

def Request.text : Request → String
  | literal value => s!"literal {value.toInt}"
  | parameter => "parameter"
  | accessor value => s!"accessor {value}"
  | builtin address op => s!"{op.symbol}@{address}"
  | assign address value => s!"{address}={value}"
  | call name address => s!"{name}({address})"
  | resolve address => s!"resolve {address}"
  | enter => "enter"
  | test address .run => s!"test {address} run"
  | test address .skip => s!"test {address} skip"
  | exit address .again => s!"exit {address} repeat"
  | exit address .done => s!"exit {address} done"

/-- The requests of a body so far, and the answers to come. -/
structure Trace where
  requests : Array Request := #[]
  /-- Whether conditionals run, test by test; they do when none is left. -/
  tests : List Bool := []
  /-- Whether conditionals repeat, end by end; they do not when none is left. -/
  exits : List Bool := []
deriving Repr

namespace Trace

def note (request : Request) : Action Trace Unit :=
  modify fun trace => { trace with requests := trace.requests.push request }

def nextTest : Action Trace LoopEntry :=
  modifyGet fun trace => (if trace.tests.headD true then .run else .skip, { trace with tests := trace.tests.tail })

def nextExit : Action Trace LoopExit :=
  modifyGet fun trace => (if trace.exits.headD false then .again else .done, { trace with exits := trace.exits.tail })

/-- Writes every request down and never fails. -/
def backend : Backend Trace String String where
  literal value := do
    note (.literal value)
    return toString value.toInt
  parameter := do
    note .parameter
    return "arg"
  resolveAccessor value := do
    note (.accessor value)
    return value
  applyBuiltin address op := note (.builtin address op)
  assign address value := note (.assign address value)
  call name address := note (.call name address)
  resolve address := do
    note (.resolve address)
    return s!"*{address}"
  enterLoop := note .enter
  testLoop address := do
    let answer ← nextTest
    note (.test address answer)
    return answer
  exitLoop address := do
    let answer ← nextExit
    note (.exit address answer)
    return answer
  describe value := s!"\"{value}\""

/-- Fuel for a body of that length: it is read once and then once more for every repetition. -/
def fuel (exits : List Bool) (body : List Token) : Nat := (exits.length + 1) * body.length

/-- The requests of a body and how its evaluation ends. -/
def ofBody (program : Program) (body : List Token) (tests exits : List Bool) : EStateM.Result Stop Trace Unit :=
  (evaluate backend program (fuel exits body) body).run { tests, exits }

end Trace

end Bracketry
