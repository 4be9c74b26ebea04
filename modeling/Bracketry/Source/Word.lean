import Bracketry.Bracket
import Bracketry.Source.Blank

/-!
# Words

* `isWordChar` : a character that is neither blank nor a bracket;
* `words` : the words of a text: every bracket is one by itself, and so is every longest run of word characters.
-/

namespace Bracketry.Source

def isWordChar (c : Char) : Bool := !isBlank c && !isBracket c

def words : List Char → List (List Char)
  | [] => []
  | c :: text =>
    if isBlank c then words text
    else if isBracket c then [c] :: words text
    else (c :: text.takeWhile isWordChar) :: words (text.dropWhile isWordChar)
termination_by text => text.length
decreasing_by
  · simp
  · simp
  · have := (List.dropWhile_suffix isWordChar (l := text)).length_le
    simp only [List.length_cons]
    omega

end Bracketry.Source
