import Bracketry.Program.Definition
import Bracketry.Proofs.Checks
import Bracketry.Proofs.Source.Comments
import Bracketry.Proofs.Source.Words
import Bracketry.Proofs.Token.Spelling

/-!
# Rendered source text

The tokens of a source text are lexed again from the text that they are rendered to. What a comment, a run of white space or
another spelling of a number adds to a source text is gone after one rendering.

* `Source.IsSourceWord` : a word without a number sign;
* `Source.wordsOf_intercalate` : such words that stand apart are the words of the source text that they make;
* `Source.isSourceWord_of_mem_wordsOf`, `Source.isSourceWord_text_of_ofWord` : the words of a source text are such words, and
  so is the canonical spelling of a token that was read from one;
* `Source.lex_render` : rendering and lexing are inverse on the tokens of a source text.
-/

namespace Bracketry.Source

/-! ## Words of a source text -/

/-- A word that may stand in a source text outside its comments. -/
structure IsSourceWord (word : String) : Prop where
  isWord : IsWord word.toList
  unmarked : '#' ∉ word.toList

theorem not_mem_intercalate {c : Char} {separator : List Char} {list : List (List Char)} (hseparator : c ∉ separator)
    (hlist : ∀ word ∈ list, c ∉ word) : c ∉ separator.intercalate list := by
  induction list with
  | nil => simp
  | cons word list ih =>
    obtain ⟨hword, hrest⟩ := List.forall_mem_cons.1 hlist
    cases list with
    | nil => simpa using hword
    | cons next list =>
      rw [List.intercalate_cons_cons]
      simp only [List.mem_append, not_or]
      exact ⟨⟨hword, hseparator⟩, ih hrest⟩

theorem wordsOf_intercalate {list : List String} (h : ∀ word ∈ list, IsSourceWord word) :
    wordsOf (" ".intercalate list) = list := by
  have hword : ∀ word ∈ list.map String.toList, IsWord word := List.forall_mem_map.2 fun word hmem => (h word hmem).isWord
  have hmark : '#' ∉ [' '].intercalate (list.map String.toList) :=
    not_mem_intercalate (by decide) (List.forall_mem_map.2 fun word hmem => (h word hmem).unmarked)
  have hspace : " ".toList = [' '] := rfl
  rw [wordsOf, splitWords, stripComments, String.toList_ofList, String.toList_intercalate, hspace, removeComments_eq_self hmark,
    words_intercalate (List.cons_ne_nil _ _) (List.forall_mem_singleton.2 (by decide)) hword, List.map_map]
  exact (List.map_congr_left fun word _ => String.ofList_toList).trans (List.map_id list)

theorem isSourceWord_of_mem_wordsOf {source word : String} (h : word ∈ wordsOf source) : IsSourceWord word := by
  obtain ⟨chars, hmem, rfl⟩ := List.mem_map.1 h
  obtain ⟨hword, hsub⟩ := isWord_of_mem_words hmem
  rw [stripComments, String.toList_ofList] at hsub
  rw [← String.toList_ofList (l := chars)] at hword hsub
  exact ⟨hword, fun hmark => not_mem_removeComments source.toList (hsub hmark)⟩

/-! ## Canonical spellings -/

theorem isSourceWord_of_forall {word : String} (hne : word.toList ≠ [])
    (h : ∀ c ∈ word.toList, isWordChar c = true ∧ c ≠ '#') : IsSourceWord word := by
  refine ⟨?_, fun hmark => (h '#' hmark).2 rfl⟩
  cases hword : word.toList with
  | nil => exact absurd hword hne
  | cons c rest => exact .run fun d hd => (h d (hword ▸ hd)).1

theorem isWordChar_of_isDigit {c : Char} (h : c.isDigit = true) : isWordChar c = true ∧ c ≠ '#' := by
  have hall : Numeral.decimals.all (fun c => isWordChar c && c != '#') = true := by decide
  simpa using List.all_eq_true.1 hall c (Numeral.mem_decimals_of_isDigit h)

theorem isSourceWord_toString (value : Int) : IsSourceWord (toString value) := by
  have hdigits : ∀ n : Nat, ∀ c ∈ Nat.toDigits 10 n, isWordChar c = true ∧ c ≠ '#' := fun n c hc =>
    isWordChar_of_isDigit (Nat.isDigit_of_mem_toDigits (by decide) (by decide) hc)
  refine isSourceWord_of_forall ?_ ?_ <;> rw [Numeral.toList_toString] <;> split
  · exact Nat.toDigits_ne_nil
  · exact List.cons_ne_nil _ _
  · exact hdigits _
  · exact List.forall_mem_cons.2 ⟨by decide, hdigits _⟩

theorem isSourceWord_text_of_ofWord {word : String} {t : Token} (hword : IsSourceWord word) (h : Token.ofWord word = .ok t) :
    IsSourceWord t.text := by
  have hfixed {word : String} (h : word.toList ≠ [] ∧ word.toList.all (fun c => isWordChar c && c != '#') = true) :
      IsSourceWord word := by
    refine isSourceWord_of_forall h.1 fun c hc => ?_
    simpa using List.all_eq_true.1 h.2 c hc
  cases t with
  | literal value => exact isSourceWord_toString value.toInt
  | identifier name => exact Token.eq_of_ofWord_eq_identifier h ▸ hword
  | opening kind => cases kind <;> exact ⟨.bracket (by decide), by decide⟩
  | closing kind => cases kind <;> exact ⟨.bracket (by decide), by decide⟩
  | builtin op => cases op <;> exact hfixed (by decide)
  | placeholder => exact hfixed (by decide)
  | parameter => exact hfixed (by decide)

/-! ## Rendering -/

variable {source : String} {tokens : List Token}

theorem wordsOf_render (h : ∀ t ∈ tokens, IsSourceWord t.text) : wordsOf (render tokens) = tokens.map Token.text :=
  wordsOf_intercalate (List.forall_mem_map.2 h)

/-- A token is read again from its spelling, and a source text has the tokens and the program of its rendering. -/
theorem lex_render :
    (∀ source tokens, lex source = .ok tokens →
      lex (render tokens) = .ok tokens ∧ Program.ofSource (render tokens) = Program.ofSource source) ∧
    ∀ word t, Token.ofWord word = .ok t → Token.ofWord t.text = .ok t := by
  refine ⟨fun source tokens h => ?_, fun word t => Token.isLegible_of_ofWord⟩
  have hword : ∀ t ∈ tokens, IsSourceWord t.text := fun t ht => by
    obtain ⟨word, hmem, hread⟩ := exists_of_mem_mapM h ht
    exact isSourceWord_text_of_ofWord (isSourceWord_of_mem_wordsOf hmem) hread
  have hlegible : ∀ t ∈ tokens, Token.ofWord t.text = .ok t := fun t ht => by
    obtain ⟨word, -, hread⟩ := exists_of_mem_mapM h ht
    exact Token.isLegible_of_ofWord hread
  have hlex : lex (render tokens) = .ok tokens := by
    rw [lex, wordsOf_render hword, mapM_eq_ok_iff, List.forall₂_map_left_iff]
    exact List.forall₂_same.2 hlegible
  refine ⟨hlex, ?_⟩
  unfold Program.ofSource
  rw [hlex, h]

/-- A rendering has no comments, one space between any two words, and numbers in their canonical spelling. -/
theorem lex_render_of_comment :
    ∃ tokens, lex "{f[$ .]} ## five ## [+5 -007 f]# done" = .ok tokens ∧ render tokens = "{ f [ $ . ] } [ 5 -7 f ]" ∧
      lex "{ f [ $ . ] } [ 5 -7 f ]" = .ok tokens ∧
      Program.ofSource "{ f [ $ . ] } [ 5 -7 f ]" = Program.ofSource "{f[$ .]} ## five ## [+5 -007 f]# done" ∧
      Token.ofWord "-007" = .ok (.literal (-7)) ∧ Token.ofWord "-7" = .ok (.literal (-7)) := by
  have hlex : lex "{f[$ .]} ## five ## [+5 -007 f]# done" =
      .ok [.opening .definition, .identifier "f", .opening .applicator, .placeholder, .builtin .output, .closing .applicator,
        .closing .definition, .opening .applicator, .literal 5, .literal (-7), .identifier "f", .closing .applicator] := by
    decide +kernel
  have hword : Token.ofWord "-007" = .ok (.literal (-7)) := by decide +kernel
  obtain ⟨hagain, hprogram⟩ := lex_render.1 _ _ hlex
  exact ⟨_, hlex, by decide +kernel, hagain, hprogram, hword, lex_render.2 _ _ hword⟩

end Bracketry.Source
