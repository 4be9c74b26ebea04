import Bracketry.Error

/-!
# JSON numbers in the wrong place

A number is read to its end even where none is wanted, since it may be malformed, cut off or out of range.

* `absorb` : as many digits as an unsigned number of 64 bits holds;
* `roundToDouble`, `exceedsDouble` : whether a decimal is beyond the finite doubles, when its digits and its power of ten are
  rounded one by one and then their product;
* `faultOfNumber` : the fault that a number is where a list or a string is wanted.
-/

namespace Bracketry.Json

/-- Continues a numeral with digits as long as its value stays below `2 ^ 64`; gives the value and how many digits it took. -/
def absorb (value : Nat) : List Char → Nat × Nat
  | [] => (value, 0)
  | c :: digits =>
    let next := 10 * value + (c.toNat - '0'.toNat)
    if next < Nat.pow 2 64 then
      let (value, taken) := absorb next digits
      (value, taken + 1)
    else (value, 0)

/-- The nearest number with at most 53 significant bits; a tie goes to the even neighbour. -/
def roundToDouble (n : Nat) : Nat :=
  if n < Nat.pow 2 53 then n
  else
    let unit := Nat.pow 2 (n.log2 - 52)
    let quotient := n / unit
    let twice := 2 * (n % unit)
    if unit < twice ∨ (unit = twice ∧ quotient % 2 = 1) then (quotient + 1) * unit else quotient * unit

/-- The decimal has a value beyond the finite doubles. Powers of ten above `308` are beyond them by themselves. -/
def exceedsDouble (significand : Nat) (exponent : Int) : Bool :=
  significand != 0 && 0 ≤ exponent &&
    (308 < exponent ||
      Nat.pow 2 1024 - Nat.pow 2 970 ≤ roundToDouble significand * roundToDouble (Nat.pow 10 exponent.toNat))

def faultOfDecimal (significand : Nat) (exponent : Int) : InterchangeFault :=
  if exceedsDouble significand exponent then .malformed else .misshapen

def faultOfExponent (significand : Nat) (exponent : Int) : List Char → InterchangeFault
  | 'e' :: text | 'E' :: text =>
    let (negative, text) := match text with
      | '+' :: text => (false, text)
      | '-' :: text => (true, text)
      | text => (false, text)
    match text with
    | [] => .truncated
    | c :: _ =>
      if !c.isDigit then .malformed
      else
        let shift : Int := Nat.ofDigitChars 10 (text.takeWhile Char.isDigit) 0
        faultOfDecimal significand (if negative then exponent - shift else exponent + shift)
  | _ => faultOfDecimal significand exponent

def faultOfFraction (significand : Nat) (exponent : Int) : List Char → InterchangeFault
  | '.' :: text =>
    let digits := text.takeWhile Char.isDigit
    if digits.isEmpty then if text.isEmpty then .truncated else .malformed
    else
      let (significand, taken) := absorb significand digits
      faultOfExponent significand (exponent - taken) (text.dropWhile Char.isDigit)
  | text => faultOfExponent significand exponent text

/-- The fault that a number is, from its first digit on. A leading zero stands alone. -/
def faultOfNumber (text : List Char) : InterchangeFault :=
  let digits := text.takeWhile Char.isDigit
  if digits.head? = some '0' ∧ digits.length ≠ 1 then .malformed
  else
    let (significand, taken) := absorb 0 digits
    faultOfFraction significand (digits.length - taken) (text.dropWhile Char.isDigit)

end Bracketry.Json
