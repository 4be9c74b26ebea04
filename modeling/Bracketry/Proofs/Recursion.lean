import Bracketry.Proofs.Steps

/-!
# Evaluation by recursion

What a body does, told bracket by bracket, without a stack and without a place in the stream. Nothing of the pass is used for it; that
its clauses are those of the pass is proved.

* `Item` : what stands in a bracket; `Item.address` says which cell it names, and `Item.apply` what it does to one;
* `Item.applied` : an applicator with its items;
* `Item.accessor_entry`, `Item.applyOperand_entry`, `Item.applied_entry` : the pass does the same with the entries for them;
* `Place` : what an item stands in; `Place.act` and `Place.keep` say what it does there and what the bracket keeps of it;
* `Action.repeating` : an action that is done again as long as it asks for it;
* `Backend.turn`, `Item.bound` : one turn of a conditional, from its test on and from its accessor on;
* `Forest.items`, `Forest.turn` : the items of a bracket, and one turn of a conditional with these items;
* `Forest.evaluate` : a whole body.
-/

namespace Bracketry

variable {σ V A : Type}

inductive Item (V : Type) where
  | token (t : Token)
  /-- An applicator that is done. -/
  | value (v : V)
  /-- A conditional that is done. -/
  | void

namespace Item
variable (backend : Backend σ V A) (program : Program)

def address : Item V → Action σ A
  | token (.literal number) => do backend.resolveAccessor (← backend.literal number)
  | token .parameter => do backend.resolveAccessor (← backend.parameter)
  | token other => Action.fault (.invalidAccessor other.text)
  | value v => backend.resolveAccessor v
  | void => Action.fault (.invalidAccessor "( ... )")

def apply (address : A) : Item V → Action σ Unit
  | token (.builtin op) => backend.applyBuiltin address op
  | token (.literal number) => do backend.assign address (← backend.literal number)
  | token .parameter => do backend.assign address (← backend.parameter)
  | token (.identifier name) =>
    if program.isApplication name then backend.call name address else Action.fault (.unknownToken name)
  | token other => Action.fault (.unknownToken other.text)
  | value v => backend.assign address v
  | void => pure ()

/-- The first item of an applicator names its cell, the others act on it in order, and the cell is its value. -/
def applied : List (Item V) → Action σ V
  | [] => Action.structureFault .applicatorWithoutAccessor
  | first :: operands => do
    let address ← first.address backend
    operands.forM (apply backend program address)
    backend.resolve address

/-- The entry for an item on the stack of a pass. -/
def entry : Item V → Entry V A
  | token t => .pending t
  | value v => .resolved v
  | void => .void

theorem isMarker_entry (item : Item V) : (item.entry : Entry V A).isMarker = false := by
  cases item <;> rfl

variable {backend program}

theorem accessor_entry (item : Item V) : Pass.accessor backend item.entry = item.address backend := by
  cases item with
  | token t => cases t <;> rfl
  | _ => rfl

theorem applyToken_eq (address : A) (t : Token) :
    Pass.applyToken backend program address t = apply backend program address (token t) := by
  cases t <;> rfl

theorem applyOperand_entry (address : A) (item : Item V) :
    Pass.applyOperand backend program address item.entry = item.apply backend program address := by
  cases item with
  | token t => exact applyToken_eq address t
  | _ => rfl

theorem applyOperands_entry (address : A) (items : List (Item V)) :
    (items.map entry).forM (Pass.applyOperand backend program address) = items.forM (apply backend program address) := by
  induction items with
  | nil => rfl
  | cons item items ih =>
    change (Pass.applyOperand backend program address item.entry >>= fun _ =>
      (items.map entry).forM (Pass.applyOperand backend program address)) = _
    rw [applyOperand_entry, ih]
    rfl

theorem applied_entry (items : List (Item V)) :
    Pass.applied backend program (items.map entry) = applied backend program items := by
  cases items with
  | nil => rfl
  | cons first operands =>
    change (Pass.accessor backend first.entry >>= fun address =>
      (operands.map entry).forM (Pass.applyOperand backend program address) >>= fun _ => backend.resolve address) = _
    simp only [accessor_entry, applyOperands_entry]
    rfl

end Item

inductive Place (A : Type) where
  | top
  | applicator
  /-- In a conditional, behind its accessor. -/
  | loop (address : A)

namespace Place
variable (backend : Backend σ V A) (program : Program)

/-- What an item does in its place at once. Only bare tokens do something, and in an applicator even they wait. -/
def act : Place A → Item V → Action σ Unit
  | .top, .token t => Action.structureFault (.outsideBrackets t)
  | .loop address, .token t => Item.apply backend program address (.token t)
  | _, _ => pure ()

/-- What is kept of an item until its bracket closes. Only applicators keep anything. -/
def keep : Place A → Item V → List (Item V)
  | .applicator, item => [item]
  | _, _ => []

end Place

/-- Does an action until it says that it is not to be done again. Each time costs one unit of fuel. -/
def Action.repeating (turn : Action σ Bool) : Nat → Action σ Unit
  | 0 => Action.exhausted
  | fuel + 1 => do
    if ← turn then repeating turn fuel

/-- One turn of a conditional on a cell: the test, the rest of the body, and whether there is to be another turn. -/
def Backend.turn (backend : Backend σ V A) (address : A) (body : Action σ (List (Item V))) : Action σ Bool := do
  match ← backend.testLoop address with
  | .skip => return false
  | .run =>
    let _ ← body
    match ← backend.exitLoop address with
    | .again => return true
    | .done => return false

/-- One turn of a conditional with the item for its accessor. -/
def Item.bound (backend : Backend σ V A) (item : Item V) (body : Place A → Action σ (List (Item V))) : Action σ Bool := do
  let address ← item.address backend
  backend.turn address (body (.loop address))

namespace Forest
variable (backend : Backend σ V A) (program : Program) (fuel : Nat)

mutual

/-- The items of a bracket from left to right, with what is kept of them. A nested applicator is done at once; a nested
conditional takes as many turns as it asks for, at most as many as there is fuel. -/
def items : Forest → Place A → Action σ (List (Item V))
  | nil, _ => return []
  | token t _ rest, place => do
    place.act backend program (.token t)
    return place.keep (.token t) ++ (← items rest place)
  | applicator inner rest, place => do
    let v ← Item.applied backend program (← items inner .applicator)
    place.act backend program (.value v)
    return place.keep (.value v) ++ (← items rest place)
  | conditional inner rest, place => do
    backend.enterLoop
    Action.repeating (turn inner) fuel
    return place.keep .void ++ (← items rest place)

/-- One turn of a conditional with these items. The first is its accessor. -/
def turn : Forest → Action σ Bool
  | nil => Action.structureFault .conditionalWithoutAccessor
  | token t _ rest => Item.bound backend (.token t) (items rest)
  | applicator inner rest => do
    let v ← Item.applied backend program (← items inner .applicator)
    Item.bound backend (.value v) (items rest)
  | conditional inner rest => do
    backend.enterLoop
    Action.repeating (turn inner) fuel
    Item.bound backend .void (items rest)

end

def evaluate (forest : Forest) : Action σ Unit := do
  let _ ← items backend program fuel forest .top

end Forest

end Bracketry
