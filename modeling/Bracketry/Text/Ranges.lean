/-!
# Ranges of code points

* `Ranges` : a property of characters, as the code points that have it;
* `Ranges.contains` : whether a character has it.
-/

namespace Bracketry

/-- Closed ranges of code points, ascending and apart. -/
abbrev Ranges := List (Nat × Nat)

def Ranges.contains (ranges : Ranges) (c : Char) : Bool :=
  ranges.any fun range => range.1 ≤ c.toNat && c.toNat ≤ range.2

end Bracketry
