import Bracketry.Token.Basic

/-!
# Reading a word as a token

* `WordFault` : why a word is no token;
* `Numeral.ofDigits?`, `Numeral.read?` : decimal numerals with an optional sign, up to the limits of 64 bits;
* `Token.ofWord` : brackets, builtins and the argument by their spelling, then numbers, then bare words. A word that starts
  like a number must be one.
-/

namespace Bracketry

inductive WordFault where
  /-- The word starts like a number, and is none or is too large. -/
  | malformedLiteral (word : String)
  /-- The word has no characters. -/
  | empty
deriving DecidableEq, Repr

namespace Numeral

/-- The value of a numeral without a sign: one or more ASCII digits. -/
def ofDigits? (digits : List Char) : Option Nat :=
  if digits.isEmpty || !digits.all Char.isDigit then none else some (Nat.ofDigitChars 10 digits 0)

/-- The value of a numeral with at most one sign in front, if it is a signed number of 64 bits. -/
def read? (word : List Char) : Option Int64 := do
  let value ← match word with
    | '-' :: digits => (ofDigits? digits).map fun n => -(n : Int)
    | '+' :: digits => (ofDigits? digits).map fun n => (n : Int)
    | digits => (ofDigits? digits).map fun n => (n : Int)
  guard (Int64.minValue.toInt ≤ value ∧ value ≤ Int64.maxValue.toInt)
  return Int64.ofInt value

/-- An optional sign and then a digit: the word can only be meant as a number. -/
def looksNumeric : List Char → Bool
  | '-' :: c :: _ | '+' :: c :: _ | c :: _ => c.isDigit
  | [] => false

end Numeral

namespace Token

/-- The token of a word, which may be any string. -/
def ofWord (word : String) : Except WordFault Token :=
  match fixed.find? fun token => token.text == word with
  | some token => .ok token
  | none =>
    if Numeral.looksNumeric word.toList then
      match Numeral.read? word.toList with
      | some value => .ok (.literal value)
      | none => .error (.malformedLiteral word)
    else if word.isEmpty then .error .empty
    else .ok (.identifier word)

end Token

end Bracketry
