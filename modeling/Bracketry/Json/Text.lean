import Bracketry.Error

/-!
# JSON strings

Readers take the characters that remain and give a value and what remains after it. They report the first fault on the way.

* `escape`, `quote` : a string as it is written;
* `readHex` : four hexadecimal digits;
* `readEscape` : what stands behind a backslash, surrogate pairs included;
* `readString` : the rest of a string after its opening quote.
-/

namespace Bracketry.Json

theorem exists_of_map_eq_ok {ε α β : Type} {f : α → β} {x : Except ε α} {b : β} (h : x.map f = .ok b) :
    ∃ a, x = .ok a ∧ f a = b := by
  cases x with
  | error fault => cases h
  | ok a => exact ⟨a, rfl, by simpa [Except.map] using h⟩

/-! ## Writing -/

/-- A character as it stands inside a string. Quotes, backslashes and control characters are escaped. -/
def escape : Char → List Char
  | '"' => ['\\', '"']
  | '\\' => ['\\', '\\']
  | '\x08' => ['\\', 'b']
  | '\t' => ['\\', 't']
  | '\n' => ['\\', 'n']
  | '\x0c' => ['\\', 'f']
  | '\r' => ['\\', 'r']
  | c =>
    if c.toNat < 0x20 then ['\\', 'u', '0', '0', (c.toNat / 16).digitChar, (c.toNat % 16).digitChar]
    else [c]

def quote (s : String) : String := String.ofList ('"' :: s.toList.flatMap escape ++ ['"'])

/-! ## Reading -/

def hexDigit? (c : Char) : Option Nat :=
  if c.isDigit then some (c.toNat - '0'.toNat)
  else if 'a' ≤ c ∧ c ≤ 'f' then some (c.toNat - 'a'.toNat + 10)
  else if 'A' ≤ c ∧ c ≤ 'F' then some (c.toNat - 'A'.toNat + 10)
  else none

/-- Four hexadecimal digits. The text is too short for them if it has less than four bytes of UTF-8. -/
def readHex (text : List Char) : Except InterchangeFault (Nat × List Char) :=
  match text with
  | a :: b :: c :: d :: rest =>
    match [a, b, c, d].mapM hexDigit? with
    | some digits => .ok (digits.foldl (fun n digit => 16 * n + digit) 0, rest)
    | none => .error .malformed
  | _ => .error (if text.foldl (fun size c => size + c.utf8Size) 0 < 4 then .truncated else .malformed)

def isHighSurrogate (unit : Nat) : Bool := 0xD800 ≤ unit && unit ≤ 0xDBFF

def isLowSurrogate (unit : Nat) : Bool := 0xDC00 ≤ unit && unit ≤ 0xDFFF

/-- The character after `\u`. Surrogates come in pairs only, each half with an escape of its own. -/
def readUnicode (text : List Char) : Except InterchangeFault (Char × List Char) := do
  let (unit, rest) ← readHex text
  if isLowSurrogate unit then throw .malformed
  if !isHighSurrogate unit then return (Char.ofNat unit, rest)
  match rest with
  | [] | ['\\'] => throw .truncated
  | '\\' :: 'u' :: rest =>
    let (low, rest) ← readHex rest
    if isLowSurrogate low then return (Char.ofNat (0x10000 + (unit - 0xD800) * 0x400 + (low - 0xDC00)), rest)
    throw .malformed
  | _ => throw .malformed

/-- The character that an escape stands for, from what follows the backslash. -/
def readEscape : List Char → Except InterchangeFault (Char × List Char)
  | [] => .error .truncated
  | '"' :: rest => .ok ('"', rest)
  | '\\' :: rest => .ok ('\\', rest)
  | '/' :: rest => .ok ('/', rest)
  | 'b' :: rest => .ok ('\x08', rest)
  | 'f' :: rest => .ok ('\x0c', rest)
  | 'n' :: rest => .ok ('\n', rest)
  | 'r' :: rest => .ok ('\r', rest)
  | 't' :: rest => .ok ('\t', rest)
  | 'u' :: rest => readUnicode rest
  | _ => .error .malformed

theorem length_of_readHex {text rest : List Char} {unit : Nat} (h : readHex text = .ok (unit, rest)) :
    rest.length < text.length := by
  unfold readHex at h
  split at h
  · split at h
    · cases h
      simp only [List.length_cons]
      omega
    · cases h
  · cases h

theorem length_of_readUnicode {text rest : List Char} {c : Char} (h : readUnicode text = .ok (c, rest)) :
    rest.length < text.length := by
  unfold readUnicode at h
  cases hHex : readHex text with
  | error fault => simp [hHex, bind, Except.bind] at h
  | ok read =>
    obtain ⟨unit, after⟩ := read
    have hLength := length_of_readHex hHex
    simp only [hHex, bind, Except.bind, pure, Except.pure, throw, throwThe, MonadExceptOf.throw] at h
    split at h
    · cases h
    · split at h
      · cases h
        exact hLength
      · split at h
        · cases h
        · cases h
        · rename_i low
          cases hLow : readHex low with
          | error fault => simp [hLow] at h
          | ok second =>
            have hLowLength := length_of_readHex hLow
            simp only [hLow] at h
            split at h
            · simp only [Except.ok.injEq, Prod.mk.injEq] at h
              obtain ⟨-, rfl⟩ := h
              simp only [List.length_cons] at hLength
              omega
            · cases h
        · cases h

theorem length_of_readEscape {text rest : List Char} {c : Char} (h : readEscape text = .ok (c, rest)) :
    rest.length < text.length := by
  unfold readEscape at h
  split at h
  case h_10 =>
    have := length_of_readUnicode h
    simp only [List.length_cons]
    omega
  all_goals (cases h; try simp)

/-- The rest of a string after its opening quote. Control characters must be escaped. -/
def readString (text : List Char) : Except InterchangeFault (List Char × List Char) :=
  match text with
  | [] => .error .truncated
  | '"' :: rest => .ok ([], rest)
  | '\\' :: escaped =>
    match _read : readEscape escaped with
    | .error fault => .error fault
    | .ok (c, rest) => (readString rest).map fun (s, rest) => (c :: s, rest)
  | c :: rest =>
    if c.toNat < 0x20 then .error .malformed
    else (readString rest).map fun (s, rest) => (c :: s, rest)
termination_by text.length
decreasing_by
  · have := length_of_readEscape _read
    simp only [List.length_cons]
    omega
  · simp

theorem length_of_readString {text rest s : List Char} (h : readString text = .ok (s, rest)) :
    rest.length < text.length := by
  fun_induction readString text generalizing s rest with
  | case1 => cases h
  | case2 =>
    cases h
    simp
  | case3 => cases h
  | case4 escaped c after hRead ih =>
    obtain ⟨⟨s', rest'⟩, hRest, heq⟩ := exists_of_map_eq_ok h
    cases heq
    have := length_of_readEscape hRead
    have := ih hRest
    simp only [List.length_cons]
    omega
  | case5 => cases h
  | case6 c after _ _ _ ih =>
    obtain ⟨⟨s', rest'⟩, hRest, heq⟩ := exists_of_map_eq_ok h
    cases heq
    have := ih hRest
    simp only [List.length_cons]
    omega

end Bracketry.Json
