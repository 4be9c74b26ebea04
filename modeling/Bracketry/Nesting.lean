import Bracketry.Error

/-!
# Nesting of brackets

* `Depths` : how many brackets of each kind are open;
* `Nesting` : the open brackets, innermost first, together with their depths;
* `Nesting.step` : what one token does to them, or the fault that it is;
* `checkBrackets` : a stream is well nested if no token is a fault and nothing stays open.
-/

namespace Bracketry

/-- How many brackets of each kind are open. -/
structure Depths where
  applicators : Nat := 0
  conditionals : Nat := 0
  definitions : Nat := 0
deriving DecidableEq, Repr

namespace Depths

def of (depths : Depths) : Bracket → Nat
  | .applicator => depths.applicators
  | .conditional => depths.conditionals
  | .definition => depths.definitions

def set (depths : Depths) (kind : Bracket) (depth : Nat) : Depths :=
  match kind with
  | .applicator => { depths with applicators := depth }
  | .conditional => { depths with conditionals := depth }
  | .definition => { depths with definitions := depth }

def anyOpen (depths : Depths) : Bool := Bracket.all.any fun kind => depths.of kind != 0

@[simp] theorem of_set_self (depths : Depths) (kind : Bracket) (depth : Nat) :
    (depths.set kind depth).of kind = depth := by
  cases kind <;> rfl

theorem of_set_of_ne (depths : Depths) {kind other : Bracket} (depth : Nat) (h : other ≠ kind) :
    (depths.set kind depth).of other = depths.of other := by
  cases kind <;> cases other <;> first | contradiction | rfl

end Depths

/-- The brackets that are open at a place of a token stream. -/
structure Nesting where
  /-- The open brackets, innermost first. -/
  openings : List Bracket := []
  /-- How many there are of each kind. -/
  depths : Depths := {}
deriving DecidableEq, Repr

namespace Nesting

/-- A bracket opens. Definitions open at the top level only. -/
def push (nesting : Nesting) (kind : Bracket) : Except BracketFault Nesting :=
  if kind = .definition ∧ nesting.depths.anyOpen then .error .nestedDefinition
  else .ok {
    openings := kind :: nesting.openings
    depths := nesting.depths.set kind (nesting.depths.of kind + 1) }

/-- A bracket closes: it must be the innermost open one. -/
def pop (nesting : Nesting) (kind : Bracket) : Except BracketFault Nesting :=
  match nesting.openings with
  | [] => .error (.tooManyClosers kind)
  | opened :: openings =>
    if opened ≠ kind then .error (.mismatched opened kind)
    else match nesting.depths.of kind with
      | 0 => .error (.tooManyClosers kind)
      | depth + 1 => .ok { openings, depths := nesting.depths.set kind depth }

def step (nesting : Nesting) : Token → Except BracketFault Nesting
  | .opening kind => nesting.push kind
  | .closing kind => nesting.pop kind
  | _ => .ok nesting

/-- At the end nothing may be open. Of several kinds the first of `Bracket.all` is named. -/
def finish (nesting : Nesting) : Except BracketFault Unit :=
  match Bracket.all.find? fun kind => nesting.depths.of kind != 0 with
  | some kind => .error (.unterminated kind)
  | none => .ok ()

end Nesting

/-- Accepts the well-nested streams; of a stream that is not, gives the first fault. -/
def checkBrackets (tokens : List Token) : Except BracketFault Unit :=
  tokens.foldlM Nesting.step {} >>= Nesting.finish

end Bracketry
