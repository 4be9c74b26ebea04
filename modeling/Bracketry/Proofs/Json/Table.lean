import Bracketry.Proofs.Json.Reading
import Bracketry.Proofs.Token.Spelling

/-!
# Lists and objects that were printed are read back

The parts of a list or an object are printed with a comma and space between them, and with space in front of the closing bracket.

* `spells_escape`, `quoted_quote` : a character and a string as they are printed;
* `spelled` : a token as it is printed;
* `lines`, `printed` : a list or an object behind its opening bracket, one item a line, and a member; `enclosed_lines` and
  `isTable_lines` say that this is one of the ways to write them;
* `Legible` : members whose tokens are all legible; `readTable_lines` reads them back, `legible_of_readTable` says that no others
  are ever read.
-/

namespace Bracketry.Json

/-! ## Strings -/

theorem hex_of_lt {n : Nat} (h : n < 0x20) : Hex ['0', '0', (n / 16).digitChar, (n % 16).digitChar] n := by
  have hdigit : ∀ {n : Nat}, n < 16 → HexDigit n.digitChar n := fun h => ⟨h, .inl rfl⟩
  have hzero : HexDigit '0' 0 := hdigit (by decide)
  have hdigits := Hex.digits hzero hzero (hdigit (show n / 16 < 16 by omega)) (hdigit (show n % 16 < 16 by omega))
  have hvalue : 0x1000 * 0 + 0x100 * 0 + 0x10 * (n / 16) + n % 16 = n := by omega
  rwa [hvalue] at hdigits

theorem spells_escape (c : Char) : Spells c (escape c) := by
  unfold escape
  split
  · exact .short (by decide)
  · exact .short (by decide)
  · exact .short (by decide)
  · exact .short (by decide)
  · exact .short (by decide)
  · exact .short (by decide)
  · exact .short (by decide)
  · next hquote hbackslash _ _ _ _ _ =>
    split
    · next hcontrol => exact .unit (hex_of_lt hcontrol)
    · next hcontrol => exact .plain hquote hbackslash (Nat.not_lt.1 hcontrol)

theorem spellsAll_escape (s : List Char) : SpellsAll s (s.flatMap escape) := by
  induction s with
  | nil => exact .nil
  | cons c s ih => exact .cons (spells_escape c) ih

theorem quoted_quote (s : String) : Quoted s (quote s).toList :=
  ⟨_, spellsAll_escape s.toList, by rw [quote, String.toList_ofList]; rfl⟩

/-! ## Lists -/

def spelled (t : Token) : List Char := (quote t.text).toList

/-- Items behind the first one, and the closing bracket, with space in front of each of them. -/
def following (gap gap' : List Char) (items : List (List Char)) (closer : Char) : List Char :=
  items.flatMap (fun item => ',' :: (gap ++ item)) ++ (gap' ++ [closer])

/-- What stands behind the opening bracket of a list or an object: one item a line. -/
def lines (indent : List Char) (items : List (List Char)) (closer : Char) : List Char :=
  match items with
  | [] => [closer]
  | item :: items =>
    ('\n' :: (indent ++ [' ', ' '])) ++ (item ++ following ('\n' :: (indent ++ [' ', ' '])) ('\n' :: indent) items closer)

section
variable {α β : Type} {item : β → List Char → Prop} {value : α → β} {spell : α → List Char}

theorem separated_following (hitem : ∀ a, item (value a) (spell a)) {gap gap' : List Char} (hgap : IsSpacing gap)
    (hgap' : IsSpacing gap') (closer : Char) (a : α) (list : List α) :
    ∃ text, gap ++ (spell a ++ following gap gap' (list.map spell) closer) = text ++ [closer] ∧
      Separated (Padded item) ((a :: list).map value) text := by
  induction list generalizing a with
  | nil => exact ⟨gap ++ (spell a ++ gap'), by simp [following], .last ⟨gap, spell a, gap', hgap, hitem a, hgap', rfl⟩⟩
  | cons next list ih =>
    obtain ⟨text, heq, hrest⟩ := ih next
    refine ⟨gap ++ (spell a ++ []) ++ ',' :: text, ?_, .next ⟨gap, spell a, [], hgap, hitem a, isSpacing_nil, rfl⟩ hrest⟩
    rw [List.append_assoc, List.cons_append, ← heq]
    simp [following]

theorem isSpacing_indented {indent : List Char} (h : IsSpacing indent) : IsSpacing ('\n' :: (indent ++ [' ', ' '])) := by
  refine isSpacing_newline fun c hc => ?_
  rcases List.mem_append.1 hc with hc | hc
  · exact h c hc
  · exact isSpacing_space (isSpacing_space isSpacing_nil) c hc

theorem enclosed_lines (hitem : ∀ a, item (value a) (spell a)) {indent : List Char} (hindent : IsSpacing indent) (closer : Char)
    (list : List α) : Enclosed item closer (list.map value) (lines indent (list.map spell) closer) := by
  cases list with
  | nil => exact .empty isSpacing_nil
  | cons a list =>
    obtain ⟨text, heq, hseparated⟩ :=
      separated_following hitem (isSpacing_indented hindent) (isSpacing_newline hindent) closer a list
    have hlines : lines indent ((a :: list).map spell) closer = text ++ [closer] := heq
    rw [hlines]
    exact .items hseparated

end

/-! ## Objects -/

def printed (member : String × List Token) : List Char :=
  (quote member.1).toList ++ (':' :: ' ' :: '[' :: lines [' ', ' '] (member.2.map spelled) ']')

def texts (member : String × List Token) : String × List String := (member.1, member.2.map Token.text)

theorem isMember_printed (member : String × List Token) : IsMember (texts member) (printed member) := by
  have hspelled : ∀ t : Token, Quoted t.text (spelled t) := fun t => quoted_quote t.text
  have hlist := enclosed_lines hspelled (isSpacing_space (isSpacing_space isSpacing_nil)) ']' member.2
  exact ⟨_, [], [' '], _, quoted_quote member.1, isSpacing_nil, isSpacing_space isSpacing_nil, hlist, rfl⟩

theorem isTable_lines (members : List (String × List Token)) :
    IsTable (members.map texts) ('{' :: lines [] (members.map printed) '}') :=
  ⟨[], _, [], isSpacing_nil, isSpacing_nil, enclosed_lines isMember_printed isSpacing_nil '}' members, by simp⟩

/-- All tokens of the members are read from their spelling. -/
def Legible (members : List (String × List Token)) : Prop := ∀ member ∈ members, ∀ t ∈ member.2, t.IsLegible

theorem tokensOf_texts {member : String × List Token} (h : ∀ t ∈ member.2, t.IsLegible) :
    tokensOf (texts member) = .ok member := by
  have htokens : (member.2.map Token.text).mapM tokenOf = .ok member.2 := by
    rw [mapM_eq_ok_iff, List.forall₂_map_left_iff]
    exact List.forall₂_same.2 fun t ht => mapError_eq_ok_iff.2 (h t ht)
  rw [tokensOf, texts, htokens]
  rfl

/-- A table is read back from its printed form. -/
theorem readTable_lines {members : List (String × List Token)} (h : Legible members) :
    readTable ('{' :: lines [] (members.map printed) '}') = .ok members := by
  rw [readTable_of_isTable (isTable_lines members), mapM_eq_ok_iff, List.forall₂_map_left_iff]
  exact List.forall₂_same.2 fun member hmember => tokensOf_texts (h member hmember)

/-- Whatever the text, the tokens of its members are read again from their spelling. -/
theorem legible_of_readTable {text : List Char} {bodies : List (String × List Token)} (h : readTable text = .ok bodies) :
    Legible bodies := by
  obtain ⟨members, -, hmembers⟩ := isTable_of_readTable h
  intro named hnamed t ht
  obtain ⟨member, -, hmember⟩ := exists_of_mem_mapM hmembers hnamed
  obtain ⟨tokens, htokens, rfl⟩ := exists_of_map_eq_ok hmember
  obtain ⟨word, -, hword⟩ := exists_of_mem_mapM htokens ht
  exact Token.isLegible_of_ofWord (mapError_eq_ok_iff.1 hword)

end Bracketry.Json
