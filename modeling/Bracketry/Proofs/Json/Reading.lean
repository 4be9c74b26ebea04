import Bracketry.Proofs.Checks
import Bracketry.Proofs.Json.Grammar

/-!
# Only objects of lists of strings are read

Whatever a reader accepts was written in one of the ways that the grammar has for it, and what it leaves is what stands behind.

* `spells_of_readUnicode`, `spellsAll_of_readString` : the characters of a string, escapes and surrogate pairs included;
* `ReadsOnly`, `StepsOn` : a reader that accepts nothing but items, and one that goes from item to item;
* `separated_of_read`, `enclosed_of_read` : the items of a list or an object;
* `isTable_of_readTable` : a text that is read is an object of lists of strings; `readTable_eq_ok_iff` says which members it gives.
-/

namespace Bracketry.Json

/-! ## Characters of a string -/

theorem toNat_lt_of_hexDigit? {c : Char} {n : Nat} (h : hexDigit? c = some n) : c.toNat < 128 := by
  have hle : ∀ last : Char, c ≤ last → c.toNat ≤ last.toNat := fun _ => UInt32.le_iff_toNat_le.1
  unfold hexDigit? at h
  split at h
  · next hdigit =>
    simp only [Char.isDigit, Bool.and_eq_true, decide_eq_true_eq] at hdigit
    exact Nat.lt_of_le_of_lt (hle '9' hdigit.2) (by decide)
  · split at h
    · next hlower => exact Nat.lt_of_le_of_lt (hle 'f' hlower.2) (by decide)
    · split at h
      · next hupper => exact Nat.lt_of_le_of_lt (hle 'F' hupper.2) (by decide)
      · cases h

theorem hexDigit_of_hexDigit? {c : Char} {n : Nat} (h : hexDigit? c = some n) : HexDigit c n := by
  have hall : ∀ code < 128, ∀ n ∈ hexDigit? (Char.ofNat code),
      n < 16 ∧ (Char.ofNat code = n.digitChar ∨ Char.ofNat code = n.digitChar.toUpper) := by decide +kernel
  have hcode := hall c.toNat (toNat_lt_of_hexDigit? h)
  rw [Char.ofNat_toNat] at hcode
  exact hcode n h

theorem hex_of_readHex {text rest : List Char} {unit : Nat} (h : readHex text = .ok (unit, rest)) :
    ∃ digits, Hex digits unit ∧ text = digits ++ rest := by
  unfold readHex at h
  split at h
  · next a b c d rest' =>
    split at h
    · next digits hdigits =>
      cases h
      simp only [List.mapM_cons, List.mapM_nil, Option.pure_def, Option.bind_eq_bind, Option.bind_eq_some_iff,
        Option.some.injEq] at hdigits
      obtain ⟨i, ha, _, ⟨j, hb, _, ⟨k, hc, _, ⟨l, hd, _, rfl, rfl⟩, rfl⟩, rfl⟩, rfl⟩ := hdigits
      refine ⟨[a, b, c, d], ?_, rfl⟩
      have hhex := Hex.digits (hexDigit_of_hexDigit? ha) (hexDigit_of_hexDigit? hb) (hexDigit_of_hexDigit? hc)
        (hexDigit_of_hexDigit? hd)
      have hvalue : [i, j, k, l].foldl (fun n digit => 16 * n + digit) 0 = 0x1000 * i + 0x100 * j + 0x10 * k + l := by
        simp only [List.foldl_cons, List.foldl_nil]
        omega
      rwa [hvalue]
    · cases h
  · cases h

theorem lt_of_hex {digits : List Char} {unit : Nat} (h : Hex digits unit) : unit < 0x10000 := by
  obtain ⟨ha, hb, hc, hd⟩ := h
  have hi := ha.1
  have hj := hb.1
  have hk := hc.1
  have hl := hd.1
  omega

theorem toNat_ofNat_of_valid {n : Nat} (h : n.isValidChar) : (Char.ofNat n).toNat = n := by
  rw [Char.ofNat, dif_pos h]
  rfl

theorem spells_of_readUnicode {text rest : List Char} {c : Char} (h : readUnicode text = .ok (c, rest)) :
    ∃ piece, Spells c ('\\' :: 'u' :: piece) ∧ text = piece ++ rest := by
  unfold readUnicode at h
  obtain ⟨⟨unit, more⟩, hread, hunit⟩ := bind_eq_ok_iff.1 h
  obtain ⟨digits, hhex, rfl⟩ := hex_of_readHex hread
  dsimp only at hunit
  rw [unless_eq_ok_iff] at hunit
  obtain ⟨hlow, hunit⟩ := hunit
  have hbound := lt_of_hex hhex
  simp only [isLowSurrogate, Bool.and_eq_true, decide_eq_true_eq] at hlow
  split at hunit
  · next hhigh =>
    cases hunit
    simp only [isHighSurrogate, Bool.not_eq_true', Bool.and_eq_false_iff, decide_eq_false_iff_not] at hhigh
    have hvalue : (Char.ofNat unit).toNat = unit := toNat_ofNat_of_valid (by unfold Nat.isValidChar; omega)
    exact ⟨digits, .unit (hvalue.symm ▸ hhex), rfl⟩
  · next hhigh =>
    simp only [isHighSurrogate, Bool.not_eq_true', Bool.not_eq_false, Bool.and_eq_true, decide_eq_true_eq] at hhigh
    split at hunit
    · cases hunit
    · cases hunit
    · next second =>
      obtain ⟨⟨low, behind⟩, hread', hpair⟩ := bind_eq_ok_iff.1 hunit
      obtain ⟨digits', hhex', rfl⟩ := hex_of_readHex hread'
      dsimp only at hpair
      split at hpair
      · next hsecond =>
        obtain ⟨rfl, rfl⟩ := Prod.mk.inj (Except.ok.inj hpair)
        simp only [isLowSurrogate, Bool.and_eq_true, decide_eq_true_eq] at hsecond
        have hvalid : Nat.isValidChar (0x10000 + (unit - 0xD800) * 0x400 + (low - 0xDC00)) := by
          unfold Nat.isValidChar
          omega
        have hvalue : (Char.ofNat (0x10000 + (unit - 0xD800) * 0x400 + (low - 0xDC00))).toNat =
            0x10000 + 0x400 * (unit - 0xD800) + (low - 0xDC00) := by
          rw [toNat_ofNat_of_valid hvalid, Nat.mul_comm]
        have hfirst : Hex digits (0xD800 + (unit - 0xD800)) := by rwa [Nat.add_sub_cancel' hhigh.1]
        have hlast : Hex digits' (0xDC00 + (low - 0xDC00)) := by rwa [Nat.add_sub_cancel' hsecond.1]
        exact ⟨_, .pair (by omega) (by omega) hvalue hfirst hlast, by simp⟩
      · cases hpair
    · cases hunit

theorem spells_of_readEscape {text rest : List Char} {c : Char} (h : readEscape text = .ok (c, rest)) :
    ∃ piece, Spells c ('\\' :: piece) ∧ text = piece ++ rest := by
  have hshort : ∀ {letter c : Char} (rest : List Char), (letter, c) ∈ shortEscapes →
      ∃ piece, Spells c ('\\' :: piece) ∧ letter :: rest = piece ++ rest := fun _ hmem => ⟨_, .short hmem, rfl⟩
  unfold readEscape at h
  split at h
  case h_10 =>
    obtain ⟨piece, hpiece, rfl⟩ := spells_of_readUnicode h
    exact ⟨_, hpiece, rfl⟩
  all_goals
    cases h
    try exact hshort _ (by decide)

theorem spellsAll_of_readString {text rest s : List Char} (h : readString text = .ok (s, rest)) :
    ∃ inside, SpellsAll s inside ∧ text = inside ++ '"' :: rest := by
  fun_induction readString text generalizing s rest with
  | case1 => cases h
  | case2 =>
    cases h
    exact ⟨[], .nil, rfl⟩
  | case3 => cases h
  | case4 escaped c after hescape ih =>
    obtain ⟨⟨s', rest'⟩, hrest, heq⟩ := exists_of_map_eq_ok h
    cases heq
    obtain ⟨piece, hpiece, rfl⟩ := spells_of_readEscape hescape
    obtain ⟨inside, hinside, rfl⟩ := ih hrest
    exact ⟨_, .cons hpiece hinside, by simp⟩
  | case5 => cases h
  | case6 c after hquote hbackslash hcontrol ih =>
    obtain ⟨⟨s', rest'⟩, hrest, heq⟩ := exists_of_map_eq_ok h
    cases heq
    obtain ⟨inside, hinside, rfl⟩ := ih hrest
    exact ⟨_, .cons (.plain hquote hbackslash (Nat.not_lt.1 hcontrol)) hinside, rfl⟩

theorem quoted_of_readString {text rest s : List Char} (h : readString text = .ok (s, rest)) :
    ∃ name, Quoted (String.ofList s) name ∧ '"' :: text = name ++ rest := by
  obtain ⟨inside, hinside, rfl⟩ := spellsAll_of_readString h
  exact ⟨_, ⟨inside, by rwa [String.toList_ofList], rfl⟩, by simp⟩

/-! ## Items -/

theorem exists_gap (text : List Char) : ∃ gap, IsSpacing gap ∧ text = gap ++ skipSpace text :=
  ⟨text.takeWhile isSpace, List.all_eq_true.1 List.all_takeWhile, List.takeWhile_append_dropWhile.symm⟩

section
variable {α β : Type} {item : α → List Char → Prop} {value : α → Except InterchangeFault β}
  {readItem : List Char → Except InterchangeFault (β × List Char)}
  {read readAll : List Char → Except InterchangeFault (List β × List Char)} {closer : Char}
  {text rest : List Char} {list : List β}

/-- What the reader accepts is an item, and it is read as its value. -/
def ReadsOnly (item : α → List Char → Prop) (value : α → Except InterchangeFault β)
    (readItem : List Char → Except InterchangeFault (β × List Char)) : Prop :=
  ∀ {text b rest}, readItem text = .ok (b, rest) → ∃ a inside, item a inside ∧ value a = .ok b ∧ text = inside ++ rest

/-- The reader accepts an item and either the closing bracket or a comma and what it accepts behind that. -/
def StepsOn (readItem : List Char → Except InterchangeFault (β × List Char))
    (read : List Char → Except InterchangeFault (List β × List Char)) (closer : Char) : Prop :=
  ∀ {text list rest}, read text = .ok (list, rest) → ∃ b after, readItem text = .ok (b, after) ∧
    (list = [b] ∧ skipSpace after = closer :: rest ∨
      ∃ more tail, list = b :: tail ∧ skipSpace after = ',' :: more ∧ read (skipSpace more) = .ok (tail, rest))

/-- Items that are read stand one after another, up to the closing bracket. The induction is on how many they are. -/
theorem separated_of_read (hitem : ReadsOnly item value readItem) (hread : StepsOn readItem read closer)
    (h : read (skipSpace text) = .ok (list, rest)) :
    ∃ items inside, Separated (Padded item) items inside ∧ items.mapM value = .ok list ∧ text = inside ++ closer :: rest := by
  induction list generalizing text with
  | nil => obtain ⟨b, after, -, ⟨heq, -⟩ | ⟨_, _, heq, -⟩⟩ := hread h <;> cases heq
  | cons b list ih =>
    obtain ⟨b', after, hfirst, hnext⟩ := hread h
    obtain ⟨a, inside, ha, hvalue, htext⟩ := hitem hfirst
    obtain ⟨before, hbefore, hfront⟩ := exists_gap text
    obtain ⟨behind, hbehind, hback⟩ := exists_gap after
    have hpadded : Padded item a (before ++ (inside ++ behind)) := ⟨_, _, _, hbefore, ha, hbehind, rfl⟩
    rcases hnext with ⟨heq, hcloser⟩ | ⟨more, tail, heq, hcomma, hmore⟩
    · cases heq
      refine ⟨[a], _, .last hpadded, ?_, ?_⟩
      · rw [List.mapM_cons, hvalue]
        rfl
      · rw [hfront, htext, hback, hcloser]
        simp
    · cases heq
      obtain ⟨items, following, hitems, hvalues, rfl⟩ := ih hmore
      refine ⟨a :: items, _, .next hpadded hitems, ?_, ?_⟩
      · rw [List.mapM_cons, hvalue, hvalues]
        rfl
      · rw [hfront, htext, hback, hcomma]
        simp

theorem enclosed_of_read (hitem : ReadsOnly item value readItem) (hread : StepsOn readItem read closer)
    (h : list = [] ∧ skipSpace text = closer :: rest ∨ read (skipSpace text) = .ok (list, rest)) :
    ∃ items inside, Enclosed item closer items inside ∧ items.mapM value = .ok list ∧ text = inside ++ rest := by
  rcases h with ⟨rfl, hcloser⟩ | hitems
  · obtain ⟨gap, hgap, htext⟩ := exists_gap text
    refine ⟨[], _, .empty hgap, rfl, ?_⟩
    rw [htext, hcloser]
    simp
  · obtain ⟨items, inside, hseparated, hvalues, rfl⟩ := separated_of_read hitem hread hitems
    exact ⟨items, _, .items hseparated, hvalues, by simp⟩

end

/-! ## Lists and objects -/

theorem readToken_readsOnly : ReadsOnly Quoted tokenOf readToken := by
  intro text t rest h
  unfold readToken at h
  split at h
  · split at h
    · cases h
    · next word rest' hword =>
      obtain ⟨name, hname, htext⟩ := quoted_of_readString hword
      split at h
      · cases h
      · next token htoken =>
        cases h
        exact ⟨_, name, hname, by rw [tokenOf, htoken]; rfl, htext⟩
  · cases h

theorem readTokens_stepsOn : StepsOn readToken readTokens ']' := by
  intro text list rest h
  rw [readTokens] at h
  split at h
  · cases h
  · next t after htoken =>
    refine ⟨t, after, htoken, ?_⟩
    split at h
    · cases h
    · next hcloser =>
      cases h
      exact .inl ⟨rfl, hcloser⟩
    · next more hcomma =>
      split at h
      · cases h
      · cases h
      · next c next _ hnext =>
        obtain ⟨⟨tail, rest'⟩, htail, heq⟩ := exists_of_map_eq_ok h
        cases heq
        exact .inr ⟨more, tail, rfl, hcomma, hnext ▸ htail⟩
    · cases h

theorem enclosed_of_readList {text rest : List Char} {tokens : List Token} (h : readList text = .ok (tokens, rest)) :
    ∃ words list, Enclosed Quoted ']' words list ∧ words.mapM tokenOf = .ok tokens ∧ text = list ++ rest := by
  refine enclosed_of_read readToken_readsOnly readTokens_stepsOn ?_
  unfold readList at h
  split at h
  · cases h
  · next hcloser =>
    cases h
    exact .inl ⟨rfl, hcloser⟩
  · exact .inr h

theorem readMember_readsOnly : ReadsOnly IsMember tokensOf readMember := by
  intro text member rest h
  unfold readMember at h
  split at h
  · split at h
    · cases h
    · next s behind hname =>
      obtain ⟨name, hname, htext⟩ := quoted_of_readString hname
      obtain ⟨before, hbefore, hfront⟩ := exists_gap behind
      split at h
      · cases h
      · next more hcolon =>
        obtain ⟨after, hafter, hback⟩ := exists_gap more
        split at h
        · next list hbracket =>
          obtain ⟨⟨tokens, rest'⟩, hlist, heq⟩ := exists_of_map_eq_ok h
          cases heq
          obtain ⟨words, inside, hwords, htokens, rfl⟩ := enclosed_of_readList hlist
          refine ⟨(String.ofList s, words), _, ⟨name, before, after, inside, hname, hbefore, hafter, hwords, rfl⟩, ?_, ?_⟩
          · rw [tokensOf, htokens]
            rfl
          · rw [htext, hfront, hcolon, hback, hbracket]
            simp
        · cases h
      · cases h
  · cases h
  · cases h

theorem readMembers_stepsOn : StepsOn readMember readMembers '}' := by
  intro text list rest h
  rw [readMembers] at h
  split at h
  · cases h
  · next member after hmember =>
    refine ⟨member, after, hmember, ?_⟩
    split at h
    · cases h
    · next hcloser =>
      cases h
      exact .inl ⟨rfl, hcloser⟩
    · next more hcomma =>
      obtain ⟨⟨tail, rest'⟩, htail, heq⟩ := exists_of_map_eq_ok h
      cases heq
      exact .inr ⟨more, tail, rfl, hcomma, htail⟩
    · cases h

theorem enclosed_of_readObject {text rest : List Char} {bodies : List (String × List Token)}
    (h : readObject text = .ok (bodies, rest)) :
    ∃ members object, Enclosed IsMember '}' members object ∧ members.mapM tokensOf = .ok bodies ∧ text = object ++ rest := by
  refine enclosed_of_read readMember_readsOnly readMembers_stepsOn ?_
  unfold readObject at h
  split at h
  · cases h
  · next hcloser =>
    cases h
    exact .inl ⟨rfl, hcloser⟩
  · exact .inr h

/-- A text that is read is an object of lists of strings, however it is written. -/
theorem isTable_of_readTable {text : List Char} {bodies : List (String × List Token)} (h : readTable text = .ok bodies) :
    ∃ members, IsTable members text ∧ members.mapM tokensOf = .ok bodies := by
  unfold readTable at h
  split at h
  · next behind hbracket =>
    split at h
    · cases h
    · next bodies' rest hobject =>
      obtain ⟨members, object, hmembers, htokens, rfl⟩ := enclosed_of_readObject hobject
      obtain ⟨before, hbefore, htext⟩ := exists_gap text
      split at h
      · next hend =>
        cases h
        have hrest : IsSpacing rest := List.dropWhile_eq_nil_iff.1 (List.isEmpty_iff.1 hend)
        exact ⟨members, ⟨before, object, rest, hbefore, hrest, hmembers, by rw [htext, hbracket]⟩, htokens⟩
      · cases h
  · cases h

/-- The texts that are read are those of objects of lists of strings that are texts of tokens. -/
theorem readTable_eq_ok_iff {text : List Char} {bodies : List (String × List Token)} :
    readTable text = .ok bodies ↔ ∃ members, IsTable members text ∧ members.mapM tokensOf = .ok bodies := by
  constructor
  · exact isTable_of_readTable
  · rintro ⟨members, htable, htokens⟩
    rw [readTable_of_isTable htable, htokens]

end Bracketry.Json
