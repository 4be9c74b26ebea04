import Bracketry.Text.Combining
import Bracketry.Text.Visible

/-!
# Texts in quotes

A text as it is shown inside a message: between quotes, on one line, and without characters that cannot be told apart by eye.

* `Quoted.escape` : one character;
* `Quoted.quote` : a whole text.
-/

namespace Bracketry.Quoted

def codePoint (c : Char) : List Char := ['\\', 'u', '{'] ++ Nat.toDigits 16 c.toNat ++ ['}']

/-- A character between quotes. Those that are not visible, and those that would join the one before them, are shown by their
code point. -/
def escape : Char → List Char
  | '\x00' => ['\\', '0']
  | '\t' => ['\\', 't']
  | '\r' => ['\\', 'r']
  | '\n' => ['\\', 'n']
  | '"' => ['\\', '"']
  | '\\' => ['\\', '\\']
  | c => if isCombining c || !isVisible c then codePoint c else [c]

def quote (text : String) : String := String.ofList ('"' :: text.toList.flatMap escape ++ ['"'])

end Bracketry.Quoted
