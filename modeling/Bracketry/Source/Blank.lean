import Bracketry.Text.Ranges

/-!
# White space

* `isBlank` : the characters with the Unicode property White_Space (25 of them, unchanged since Unicode 6.3);
* `isBlank_of_isWhitespace` : the white space of ASCII is part of it.
-/

namespace Bracketry

/-- The code points with the property White_Space. -/
def blankRanges : Ranges :=
  [(0x09, 0x0D), (0x20, 0x20), (0x85, 0x85), (0xA0, 0xA0), (0x1680, 0x1680), (0x2000, 0x200A),
    (0x2028, 0x2029), (0x202F, 0x202F), (0x205F, 0x205F), (0x3000, 0x3000)]

/-- White space separates words and means nothing else. -/
def isBlank (c : Char) : Bool := blankRanges.contains c

theorem isBlank_of_isWhitespace {c : Char} (h : c.isWhitespace = true) : isBlank c = true := by
  simp only [Char.isWhitespace, Bool.or_eq_true, decide_eq_true_eq] at h
  rcases h with ((h | h) | h) | h <;> subst h <;> decide

end Bracketry
