/-!
# Comments

A block comment stands between two `##` and may span lines; a line comment runs from a `#` to the end of its line.

* `cutAtMark?` : the text before the first `##` and the text after it;
* `removeBlocks` : takes out the block comments, left to right; an opening `##` that is never closed stays in the text;
* `cutLines` : cuts every line at its first `#`;
* `removeComments` : both, in this order.
-/

namespace Bracketry.Source

/-- The text before the first `##` and the text after it, if there is one. -/
def cutAtMark? : List Char → Option (List Char × List Char)
  | '#' :: '#' :: after => some ([], after)
  | c :: text => (cutAtMark? text).map fun (before, after) => (c :: before, after)
  | [] => none

theorem length_of_cutAtMark? {text before after : List Char} (h : cutAtMark? text = some (before, after)) :
    text.length = before.length + after.length + 2 := by
  fun_induction cutAtMark? text generalizing before after with
  | case1 =>
    cases h
    simp
  | case2 c text _ ih =>
    obtain ⟨⟨b, a⟩, hcut, heq⟩ := Option.map_eq_some_iff.1 h
    cases heq
    simp only [List.length_cons, ih hcut]
    omega
  | case3 => cases h

/-- Takes out every block comment. A block ends at the nearest `##` after the one that opens it. -/
def removeBlocks (text : List Char) : List Char :=
  match _opens : cutAtMark? text with
  | none => text
  | some (before, inside) =>
    match _closes : cutAtMark? inside with
    | none => text
    | some (_, after) => before ++ removeBlocks after
termination_by text.length
decreasing_by
  have h₁ := length_of_cutAtMark? _opens
  have h₂ := length_of_cutAtMark? _closes
  omega

/-- Cuts every line at its first `#`; `inComment` tells whether that has been met on the line that `text` continues. -/
def cutLines (inComment : Bool) : List Char → List Char
  | [] => []
  | c :: text =>
    if c = '\n' then c :: cutLines false text
    else if inComment || c == '#' then cutLines true text
    else c :: cutLines false text

def removeComments (text : List Char) : List Char := cutLines false (removeBlocks text)

end Bracketry.Source
