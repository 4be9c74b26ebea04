import Bracketry.Proofs.Token.Spelling

/-!
# The classes of words

Every word belongs to one class: it is a numeral within 64 bits, it starts like a numeral and is none, it is the spelling of a token
that has one spelling only, it is empty, or it is a bare word.

* `Token.IsFixed` : the tokens that have one spelling only; `Token.find?_fixed_eq_some_iff`;
* `Token.Class` : the classes of words; `Token.class_ofWord` gives every word one, `Token.ofWord_eq_iff_class` no other;
* `Token.ofWord_classes` : which words are read as which tokens, and which are refused.
-/

namespace Bracketry

namespace Token
open Numeral

variable {word : String} {t : Token}

/-! ## Tokens with one spelling -/

def IsFixed (t : Token) : Prop := (∀ value, t ≠ .literal value) ∧ ∀ name, t ≠ .identifier name

theorem mem_fixed_iff : t ∈ fixed ↔ t.IsFixed := by
  constructor
  · intro h
    exact ⟨fun value heq => by simp [heq, fixed] at h, fun name heq => by simp [heq, fixed] at h⟩
  · rintro ⟨hliteral, hidentifier⟩
    cases t with
    | literal value => exact absurd rfl (hliteral value)
    | identifier name => exact absurd rfl (hidentifier name)
    | builtin op => cases op <;> decide
    | opening kind => cases kind <;> decide
    | closing kind => cases kind <;> decide
    | placeholder => decide
    | parameter => decide

theorem find?_fixed_eq_some_iff :
    (fixed.find? fun other => other.text == word) = some t ↔ t.IsFixed ∧ t.text = word := by
  rw [← mem_fixed_iff]
  constructor
  · intro h
    have htext : (t.text == word) = true := by simpa using List.find?_some h
    exact ⟨List.mem_of_find?_eq_some h, beq_iff_eq.1 htext⟩
  · rintro ⟨hmem, rfl⟩
    have hfind : ∀ t ∈ fixed, (fixed.find? fun other => other.text == t.text) = some t := by decide
    exact hfind t hmem

theorem find?_fixed_eq_none_iff :
    (fixed.find? fun other => other.text == word) = none ↔ ∀ t : Token, t.IsFixed → t.text ≠ word := by
  rw [Option.eq_none_iff_forall_not_mem]
  simp only [Option.mem_def, find?_fixed_eq_some_iff, not_and, ne_eq]

/-! ## Words -/

/-- The classes of words, and what is read from the words of each. -/
inductive Class (word : String) : Except WordFault Token → Prop
  | literal {value : Int64} (h : Denotes word.toList value.toInt) : Class word (.ok (.literal value))
  | malformed (h : Starts word.toList) (hnone : ¬∃ v, Denotes word.toList v ∧ InRange v) :
      Class word (.error (.malformedLiteral word))
  | empty (h : word = "") : Class word (.error .empty)
  | fixed {t : Token} (h : t.IsFixed) (htext : t.text = word) : Class word (.ok t)
  | identifier (hne : word ≠ "") (h : ¬Starts word.toList) (hfixed : ∀ t : Token, t.IsFixed → t.text ≠ word) :
      Class word (.ok (.identifier word))

variable {result : Except WordFault Token}

/-- A word that starts like a number is one or is refused. -/
theorem ofWord_of_starts (h : Starts word.toList) :
    ofWord word = match read? word.toList with
      | some value => .ok (.literal value)
      | none => .error (.malformedLiteral word) := by
  have hnumeric := looksNumeric_iff.2 h
  rw [ofWord, find?_fixed_of_looksNumeric hnumeric]
  exact if_pos hnumeric

/-- Any other word that is not spelt like a fixed token is a bare word, unless it is empty. -/
theorem ofWord_of_not_starts (hfixed : ∀ t : Token, t.IsFixed → t.text ≠ word) (h : ¬Starts word.toList) :
    ofWord word = if word = "" then .error .empty else .ok (.identifier word) := by
  have hnumeric : ¬looksNumeric word.toList = true := mt looksNumeric_iff.1 h
  rw [ofWord, find?_fixed_eq_none_iff.2 hfixed]
  dsimp only
  rw [if_neg hnumeric]
  simp only [String.isEmpty_iff]

theorem class_ofWord (word : String) : Class word (ofWord word) := by
  by_cases hfixed : ∃ t : Token, t.IsFixed ∧ t.text = word
  · obtain ⟨t, hfixed, rfl⟩ := hfixed
    rw [show ofWord t.text = .ok t from isLegible_of_mem_fixed (mem_fixed_iff.2 hfixed)]
    exact .fixed hfixed rfl
  have hfixed : ∀ t : Token, t.IsFixed → t.text ≠ word := fun t ht htext => hfixed ⟨t, ht, htext⟩
  by_cases hstarts : Starts word.toList
  · rw [ofWord_of_starts hstarts]
    cases hread : read? word.toList with
    | none => exact .malformed hstarts (read?_eq_none_iff.1 hread)
    | some value => exact .literal (read?_eq_some_iff.1 hread)
  · rw [ofWord_of_not_starts hfixed hstarts]
    split
    · next hempty => exact .empty hempty
    · next hne => exact .identifier hne hstarts hfixed

theorem ofWord_eq_iff_class : ofWord word = result ↔ Class word result := by
  refine ⟨fun h => h ▸ class_ofWord word, fun h => ?_⟩
  cases h with
  | literal hword => rw [ofWord_of_starts (starts_of_denotes hword), read?_eq_some_iff.2 hword]
  | malformed hstarts hnone => rw [ofWord_of_starts hstarts, read?_eq_none_iff.2 hnone]
  | empty hempty =>
    subst hempty
    decide
  | fixed hfixed htext =>
    subst htext
    exact isLegible_of_mem_fixed (mem_fixed_iff.2 hfixed)
  | identifier hne hstarts hfixed => rw [ofWord_of_not_starts hfixed hstarts, if_neg hne]

/-- A word is a literal if it is a numeral within 64 bits, and malformed if it starts like a numeral and is no such literal. Otherwise it
is empty, or the token whose spelling it is, or a bare word. -/
theorem ofWord_classes (word : String) :
    (∀ v : Int, (∃ value : Int64, value.toInt = v ∧ ofWord word = .ok (.literal value)) ↔
      Denotes word.toList v ∧ -2 ^ 63 ≤ v ∧ v ≤ 2 ^ 63 - 1) ∧
    (∀ other, ofWord word = .error (.malformedLiteral other) ↔
      other = word ∧ Starts word.toList ∧ ¬∃ v : Int, Denotes word.toList v ∧ -2 ^ 63 ≤ v ∧ v ≤ 2 ^ 63 - 1) ∧
    (ofWord word = .error .empty ↔ word = "") ∧
    (∀ t : Token, t.IsFixed → (ofWord word = .ok t ↔ t.text = word)) ∧
    ∀ name, ofWord word = .ok (.identifier name) ↔
      name = word ∧ word ≠ "" ∧ ¬Starts word.toList ∧ ∀ t : Token, t.IsFixed → t.text ≠ word := by
  simp only [ofWord_eq_iff_class]
  refine ⟨fun v => ⟨?_, ?_⟩, fun other => ⟨?_, ?_⟩, ⟨?_, .empty⟩, fun t ht => ⟨?_, .fixed ht⟩, fun name => ⟨?_, ?_⟩⟩
  · rintro ⟨value, rfl, hword | _ | _ | ⟨hfixed, -⟩⟩
    · exact ⟨hword, inRange_toInt value⟩
    · exact absurd rfl (hfixed.1 value)
  · rintro ⟨hword, hrange⟩
    exact ⟨Int64.ofInt v, toInt_ofInt hrange, .literal (by rwa [toInt_ofInt hrange])⟩
  · rintro (_ | ⟨hstarts, hnone⟩)
    exact ⟨rfl, hstarts, hnone⟩
  · rintro ⟨rfl, hstarts, hnone⟩
    exact .malformed hstarts hnone
  · rintro (_ | _ | hempty)
    exact hempty
  · rintro (hword | _ | _ | ⟨-, htext⟩ | _)
    · exact absurd rfl (ht.1 _)
    · exact htext
    · exact absurd rfl (ht.2 _)
  · rintro (_ | _ | _ | ⟨hfixed, -⟩ | ⟨hne, hstarts, hfixed⟩)
    · exact absurd rfl (hfixed.2 name)
    · exact ⟨rfl, hne, hstarts, hfixed⟩
  · rintro ⟨rfl, hne, hstarts, hfixed⟩
    exact .identifier hne hstarts hfixed

/-- The least literal, with zeros in front; one more than the greatest; and a sign without a number. -/
theorem ofWord_classes_of_limits :
    (∃ value : Int64, value.toInt = -2 ^ 63 ∧ ofWord "-009223372036854775808" = .ok (.literal value)) ∧
      ofWord "+9223372036854775808" = .error (.malformedLiteral "+9223372036854775808") ∧
      (¬∃ v : Int, Denotes "+9223372036854775808".toList v ∧ -2 ^ 63 ≤ v ∧ v ≤ 2 ^ 63 - 1) ∧
      (builtin .decrement).IsFixed ∧ ofWord "-" = .ok (.builtin .decrement) := by
  obtain ⟨hliteral, -⟩ := ofWord_classes "-009223372036854775808"
  obtain ⟨-, hmalformed, -⟩ := ofWord_classes "+9223372036854775808"
  obtain ⟨-, -, -, hspelling, -⟩ := ofWord_classes "-"
  have hleast : Denotes "-009223372036854775808".toList (-2 ^ 63) :=
    @Denotes.minus "009223372036854775808".toList ⟨by decide, List.all_eq_true.1 (by decide)⟩
  have hrefused : ofWord "+9223372036854775808" = .error (.malformedLiteral "+9223372036854775808") := by decide +kernel
  have hfixed : (builtin .decrement).IsFixed := ⟨nofun, nofun⟩
  exact ⟨(hliteral _).2 ⟨hleast, by decide, by decide⟩, hrefused, ((hmalformed _).1 hrefused).2.2, hfixed,
    (hspelling _ hfixed).2 rfl⟩

end Token

end Bracketry
