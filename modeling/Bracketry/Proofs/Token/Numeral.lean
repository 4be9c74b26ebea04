import Mathlib.Data.Nat.Digits.Defs
import Mathlib.Tactic.IntervalCases
import Mathlib.Tactic.Ring
import Bracketry.Token.Read

/-!
# Numerals

A numeral is one or more decimal digits with at most one sign in front. It is read as its number if that fits into 64 bits.

* `Numeral.decimals`, `Numeral.mem_decimals_of_isDigit` : the ten digits;
* `Numeral.IsDigits`, `Numeral.value` : one or more of them, and their number;
* `Numeral.Denotes` : a numeral, and the number that it stands for; `Numeral.read?_eq_some_iff`, `Numeral.read?_eq_none_iff` say that
  these are read, up to the limits of 64 bits;
* `Numeral.read?_toString` : a signed number of 64 bits is read from its digits;
* `Numeral.Starts` : an optional sign and then a digit; `Numeral.looksNumeric_iff`, `Numeral.looksNumeric_toString`.
-/

namespace Bracketry.Numeral

variable {word digits : List Char} {n : Nat} {v : Int}

/-! ## Digits -/

def decimals : List Char := ['0', '1', '2', '3', '4', '5', '6', '7', '8', '9']

theorem mem_decimals_of_isDigit {c : Char} (h : c.isDigit = true) : c ∈ decimals := by
  obtain ⟨hlow, hhigh⟩ : 48 ≤ c.toNat ∧ c.toNat ≤ 57 := by simpa [Char.isDigit, UInt32.le_iff_toNat_le] using h
  obtain ⟨n, hn⟩ : ∃ n, c.toNat = n := ⟨_, rfl⟩
  have hc : c = Char.ofNat n := by rw [← hn, Char.ofNat_toNat]
  rw [hn] at hlow hhigh
  subst hc
  clear hn
  interval_cases n <;> decide

def IsDigits (digits : List Char) : Prop := digits ≠ [] ∧ ∀ c ∈ digits, c.isDigit = true

/-- The number of some digits, of which the last one counts ones. -/
def value (digits : List Char) : Nat := Nat.ofDigits 10 (digits.reverse.map fun c => c.toNat - '0'.toNat)

/-- Digits read from the left, with `start` in front of them. -/
theorem ofDigitChars_eq_value (digits : List Char) (start : Nat) :
    Nat.ofDigitChars 10 digits start = value digits + 10 ^ digits.length * start := by
  induction digits generalizing start with
  | nil => simp [value]
  | cons c digits ih =>
    have hvalue : value (c :: digits) = value digits + 10 ^ digits.length * (c.toNat - '0'.toNat) := by
      rw [value, List.reverse_cons, List.map_append, Nat.ofDigits_append, List.length_map, List.length_reverse, List.map_singleton,
        Nat.ofDigits_singleton, value]
    rw [Nat.ofDigitChars_cons, ih, hvalue, List.length_cons]
    ring

theorem ofDigits?_eq_some_iff : ofDigits? digits = some n ↔ IsDigits digits ∧ n = value digits := by
  have hdigits : IsDigits digits ↔ ¬(digits.isEmpty || !digits.all Char.isDigit) = true := by simp [IsDigits]
  have hvalue : Nat.ofDigitChars 10 digits 0 = value digits := ofDigitChars_eq_value digits 0
  rw [hdigits, ofDigits?, hvalue]
  split
  · next h => exact ⟨nofun, fun hd => absurd h hd.1⟩
  · next h => exact ⟨fun heq => ⟨h, (Option.some.inj heq).symm⟩, fun hd => congrArg some hd.2.symm⟩

theorem exists_toDigits_eq_cons (n : Nat) : ∃ c digits, Nat.toDigits 10 n = c :: digits ∧ c.isDigit = true := by
  cases hdigits : Nat.toDigits 10 n with
  | nil => exact absurd hdigits Nat.toDigits_ne_nil
  | cons c digits =>
    exact ⟨c, digits, rfl, Nat.isDigit_of_mem_toDigits (by decide) (by decide) (hdigits ▸ List.mem_cons_self)⟩

theorem isDigits_toDigits (n : Nat) : IsDigits (Nat.toDigits 10 n) :=
  ⟨Nat.toDigits_ne_nil, fun _ hc => Nat.isDigit_of_mem_toDigits (by decide) (by decide) hc⟩

theorem value_toDigits (n : Nat) : value (Nat.toDigits 10 n) = n :=
  (ofDigitChars_eq_value (Nat.toDigits 10 n) 0).symm.trans Nat.ofDigitChars_ten_toDigits

/-! ## Signs -/

/-- A numeral, and the number that it stands for. -/
inductive Denotes : List Char → Int → Prop
  | unsigned {digits : List Char} (h : IsDigits digits) : Denotes digits (value digits)
  | plus {digits : List Char} (h : IsDigits digits) : Denotes ('+' :: digits) (value digits)
  | minus {digits : List Char} (h : IsDigits digits) : Denotes ('-' :: digits) (-value digits)

def signed (sign : Int → Int) (digits : List Char) : Option Int :=
  (do let n ← ofDigits? digits; return (n : Int) : Option Int).map sign

/-- The number of a word, whatever its size. -/
def number? : List Char → Option Int
  | '-' :: digits => signed (fun n => -n) digits
  | '+' :: digits => signed (fun n => n) digits
  | digits => signed (fun n => n) digits

theorem number?_of_isDigit {c : Char} (h : c.isDigit = true) (digits : List Char) :
    number? (c :: digits) = signed (fun n => n) (c :: digits) := by
  unfold number?
  split
  · next heq => cases heq; cases h
  · next heq => cases heq; cases h
  · rfl

theorem signed_eq_some_iff {sign : Int → Int} :
    signed sign digits = some v ↔ IsDigits digits ∧ v = sign (value digits) := by
  cases hdigits : ofDigits? digits with
  | none =>
    have hnone : ¬IsDigits digits := fun hd => by cases hdigits.symm.trans (ofDigits?_eq_some_iff.2 ⟨hd, rfl⟩)
    rw [signed, hdigits]
    exact ⟨nofun, fun hd => absurd hd.1 hnone⟩
  | some n =>
    obtain ⟨hd, rfl⟩ := ofDigits?_eq_some_iff.1 hdigits
    rw [signed, hdigits]
    exact ⟨fun h => ⟨hd, (Option.some.inj h).symm⟩, fun h => congrArg some h.2.symm⟩

theorem number?_eq_some_iff : number? word = some v ↔ Denotes word v := by
  constructor
  · intro h
    unfold number? at h
    split at h <;> obtain ⟨hd, rfl⟩ := signed_eq_some_iff.1 h
    · exact .minus hd
    · exact .plus hd
    · exact .unsigned hd
  · rintro (@⟨digits, hd⟩ | hd | hd)
    · obtain ⟨c, rest, rfl⟩ := List.exists_cons_of_ne_nil hd.1
      rw [number?_of_isDigit (hd.2 c List.mem_cons_self), signed_eq_some_iff.2 ⟨hd, rfl⟩]
    · exact signed_eq_some_iff.2 ⟨hd, rfl⟩
    · exact signed_eq_some_iff.2 ⟨hd, rfl⟩

/-! ## Numbers of 64 bits -/

def InRange (v : Int) : Prop := -2 ^ 63 ≤ v ∧ v ≤ 2 ^ 63 - 1

theorem inRange_toInt (value : Int64) : InRange value.toInt :=
  ⟨Int64.minValue_le_toInt value, Int64.toInt_le value⟩

theorem toInt_ofInt (h : InRange v) : (Int64.ofInt v).toInt = v :=
  Int64.toInt_ofInt_of_le h.1 (Int.lt_of_le_sub_one h.2)

def within? (value : Int) : Option Int64 := do
  guard (Int64.minValue.toInt ≤ value ∧ value ≤ Int64.maxValue.toInt)
  return Int64.ofInt value

theorem within?_eq_some_iff {value : Int64} : within? v = some value ↔ InRange v ∧ value.toInt = v := by
  constructor
  · intro h
    obtain ⟨_, hguard, hvalue⟩ := Option.bind_eq_some_iff.1 h
    have hrange : InRange v := of_not_not fun hout => by cases (if_neg hout).symm.trans hguard
    obtain rfl := Option.some.inj hvalue
    exact ⟨hrange, toInt_ofInt hrange⟩
  · rintro ⟨hrange, rfl⟩
    have hguard : (guard (Int64.minValue.toInt ≤ value.toInt ∧ value.toInt ≤ Int64.maxValue.toInt) : Option Unit) = some () :=
      if_pos hrange
    rw [within?, hguard, Int64.ofInt_toInt]
    rfl

theorem read?_eq_bind (word : List Char) : read? word = number? word >>= within? := by
  unfold number?
  split
  · rfl
  · rfl
  · next hminus hplus =>
    unfold read?
    split
    · next digits => exact (hminus digits rfl).elim
    · next digits => exact (hplus digits rfl).elim
    · rfl

theorem read?_eq_some_iff {value : Int64} : read? word = some value ↔ Denotes word value.toInt := by
  rw [read?_eq_bind, Option.bind_eq_bind, Option.bind_eq_some_iff]
  simp only [number?_eq_some_iff, within?_eq_some_iff]
  constructor
  · rintro ⟨v, hword, -, rfl⟩
    exact hword
  · exact fun hword => ⟨_, hword, inRange_toInt value, rfl⟩

theorem read?_eq_none_iff : read? word = none ↔ ¬∃ v, Denotes word v ∧ InRange v := by
  rw [Option.eq_none_iff_forall_not_mem]
  simp only [Option.mem_def, read?_eq_some_iff, not_exists, not_and]
  constructor
  · intro h v hword hrange
    refine h (Int64.ofInt v) ?_
    rwa [toInt_ofInt hrange]
  · exact fun h value hword => h _ hword (inRange_toInt value)

/-! ## The spelling of a number -/

theorem toList_toString (value : Int) :
    (toString value).toList =
      if 0 ≤ value then Nat.toDigits 10 value.toNat else '-' :: Nat.toDigits 10 (-value).toNat := by
  rw [Int.toString_eq_repr, Int.repr_eq_if]
  split
  · rw [Nat.repr_eq_ofList_toDigits, String.toList_ofList]
  · rw [Nat.repr_eq_ofList_toDigits, String.toList_append, String.toList_ofList, String.toList_ofList]
    rfl

theorem denotes_toString (v : Int) : Denotes (toString v).toList v := by
  rw [toList_toString]
  split
  · next hnonneg =>
    have hdenotes := Denotes.unsigned (isDigits_toDigits v.toNat)
    rwa [value_toDigits, Int.toNat_of_nonneg hnonneg] at hdenotes
  · next hneg =>
    have habs : -((-v).toNat : Int) = v := by omega
    have hdenotes := Denotes.minus (isDigits_toDigits (-v).toNat)
    rwa [value_toDigits, habs] at hdenotes

theorem read?_toString (value : Int64) : read? (toString value.toInt).toList = some value :=
  read?_eq_some_iff.2 (denotes_toString value.toInt)

/-! ## Words that start like a number -/

/-- A sign, or none, and then a digit. -/
def Starts (word : List Char) : Prop :=
  ∃ sign ∈ [[], ['+'], ['-']], ∃ c rest, word = sign ++ c :: rest ∧ c.isDigit = true

theorem looksNumeric_of_isDigit {c : Char} (h : c.isDigit = true) (text : List Char) : looksNumeric (c :: text) = true := by
  unfold looksNumeric
  split
  · next heq => cases heq; cases h
  · next heq => cases heq; cases h
  · next heq => cases heq; exact h
  · next heq => cases heq

theorem looksNumeric_iff : looksNumeric word = true ↔ Starts word := by
  constructor
  · intro h
    unfold looksNumeric at h
    split at h
    · next c rest => exact ⟨['-'], by simp, c, rest, rfl, h⟩
    · next c rest => exact ⟨['+'], by simp, c, rest, rfl, h⟩
    · next c rest _ _ => exact ⟨[], by simp, c, rest, rfl, h⟩
    · cases h
  · rintro ⟨sign, hsign, c, rest, rfl, hc⟩
    simp only [List.mem_cons, List.not_mem_nil, or_false] at hsign
    rcases hsign with rfl | rfl | rfl
    · exact looksNumeric_of_isDigit hc rest
    · exact hc
    · exact hc

theorem starts_append {sign : List Char} (hsign : sign ∈ [[], ['+'], ['-']]) (h : IsDigits digits) : Starts (sign ++ digits) := by
  obtain ⟨c, rest, rfl⟩ := List.exists_cons_of_ne_nil h.1
  exact ⟨sign, hsign, c, rest, rfl, h.2 c List.mem_cons_self⟩

theorem starts_of_denotes (h : Denotes word v) : Starts word := by
  cases h with
  | unsigned hd => exact @starts_append word [] (by simp) hd
  | @plus digits hd => exact @starts_append digits ['+'] (by simp) hd
  | @minus digits hd => exact @starts_append digits ['-'] (by simp) hd

theorem looksNumeric_toString (value : Int) : looksNumeric (toString value).toList = true :=
  looksNumeric_iff.2 (starts_of_denotes (denotes_toString value))

end Bracketry.Numeral
