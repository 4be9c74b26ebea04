import Bracketry.Proofs.Token.Numeral

/-!
# Tokens and their spelling

A token that was read from a word is read again from its canonical spelling.

* `Token.IsLegible` : the tokens that are read from their spelling; they are all but some identifiers (`isLegible_of_ne`);
* `Token.isLegible_of_ofWord` : a token of a word is one of them, whatever the word;
* `Token.isLegible_bindParameter` : the argument stays one when it is bound.
-/

namespace Bracketry

namespace Token

variable {t : Token} {word : String}

/-- The token is read from its canonical spelling. -/
def IsLegible (t : Token) : Prop := ofWord t.text = .ok t

theorem looksNumeric_text_of_mem_fixed : ∀ t ∈ fixed, Numeral.looksNumeric t.text.toList = false := by decide

theorem isLegible_of_mem_fixed (h : t ∈ fixed) : t.IsLegible := by
  have hfind : ∀ t ∈ fixed, (fixed.find? fun other => other.text == t.text) = some t := by decide
  rw [IsLegible, ofWord, hfind t h]

theorem find?_fixed_of_looksNumeric (h : Numeral.looksNumeric word.toList = true) :
    (fixed.find? fun t => t.text == word) = none := by
  refine List.find?_eq_none.2 fun t ht heq => ?_
  have hfalse := looksNumeric_text_of_mem_fixed t ht
  rw [beq_iff_eq.1 heq, h] at hfalse
  cases hfalse

theorem isLegible_literal (value : Int64) : (literal value).IsLegible := by
  have hnumeric := Numeral.looksNumeric_toString value.toInt
  unfold IsLegible ofWord
  rw [text, find?_fixed_of_looksNumeric hnumeric]
  dsimp only
  rw [if_pos hnumeric, Numeral.read?_toString]

theorem isLegible_of_ne (h : ∀ name, t ≠ .identifier name) : t.IsLegible := by
  cases t with
  | literal value => exact isLegible_literal value
  | identifier name => exact absurd rfl (h name)
  | builtin op => exact isLegible_of_mem_fixed (by cases op <;> decide)
  | opening kind => exact isLegible_of_mem_fixed (by cases kind <;> decide)
  | closing kind => exact isLegible_of_mem_fixed (by cases kind <;> decide)
  | placeholder => exact isLegible_of_mem_fixed (by decide)
  | parameter => exact isLegible_of_mem_fixed (by decide)

/-- An identifier is spelt like the word that it was read from. -/
theorem eq_of_ofWord_eq_identifier {name : String} (h : ofWord word = .ok (.identifier name)) : name = word := by
  unfold ofWord at h
  split at h
  · next t hfind =>
    cases h
    have hmem : Token.identifier name ∈ fixed := List.mem_of_find?_eq_some hfind
    simp [fixed] at hmem
  · split at h
    · split at h <;> cases h
    · split at h
      · cases h
      · cases h
        rfl

/-- Whatever the word, its token is read again from its canonical spelling. -/
theorem isLegible_of_ofWord (h : ofWord word = .ok t) : t.IsLegible := by
  by_cases hname : ∃ name, t = .identifier name
  · obtain ⟨name, rfl⟩ := hname
    obtain rfl := eq_of_ofWord_eq_identifier h
    exact h
  · exact isLegible_of_ne fun name heq => hname ⟨name, heq⟩

theorem isLegible_bindParameter (h : t.IsLegible) : t.bindParameter.IsLegible := by
  cases t with
  | placeholder => exact isLegible_of_ne nofun
  | _ => exact h

theorem isArgument_bindParameter (t : Token) : t.bindParameter.isArgument = t.isArgument := by
  cases t <;> rfl

end Token

end Bracketry
