/-!
# Brackets

* `Bracket` : the three kinds of bracket, with the characters `Bracket.opener` and `Bracket.closer`;
* `Bracket.all` : the kinds in the order in which unfinished ones are reported;
* `isBracket` : the six bracket characters.
-/

namespace Bracketry

/-- The three kinds of bracket. -/
inductive Bracket where
  /-- Square brackets: operations applied to one cell. -/
  | applicator
  /-- Round brackets: a loop that runs while its cell is not zero. -/
  | conditional
  /-- Braces: a named application. -/
  | definition
deriving DecidableEq, Repr

namespace Bracket

/-- The kinds in the order in which an unfinished one is reported. -/
def all : List Bracket := [applicator, conditional, definition]

/-- The character that opens a bracket. -/
def opener : Bracket → Char
  | applicator => '['
  | conditional => '('
  | definition => '{'

/-- The character that closes a bracket. -/
def closer : Bracket → Char
  | applicator => ']'
  | conditional => ')'
  | definition => '}'

theorem mem_all (kind : Bracket) : kind ∈ all := by cases kind <;> decide

end Bracket

/-- One of the six characters that open or close a bracket. -/
def isBracket (c : Char) : Bool := Bracket.all.any fun kind => c == kind.opener || c == kind.closer

end Bracketry
