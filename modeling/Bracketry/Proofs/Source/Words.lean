import Mathlib.Data.Bool.Basic
import Mathlib.Data.List.Chain
import Mathlib.Data.List.TakeWhile
import Bracketry.Source.Lex

/-!
# Words of a text

A text is its words in order, with white space around them. Which words these are is settled by the text alone.

* `Source.IsWord` : a bracket, or one or more characters that are neither blank nor brackets;
* `Source.words_run`, `Source.words_append` : a run in front of what is not part of one, and a word in front of white space, are the
  first word of the text;
* `Source.words_intercalate` : words with white space between them are the words of the text;
* `Source.Piece`, `Source.LaidOut` : a text as words with white space in front of them, runs apart from each other;
* `Source.laidOut_words`, `Source.words_of_laidOut` : every text is laid out so, with its words and no others;
* `Source.splitWords_laidOut` : splitting gives the words of the one layout that the text has.
-/

namespace Bracketry.Source

variable {text word rest : List Char}

inductive IsWord : List Char → Prop
  | bracket {c : Char} (h : isBracket c = true) : IsWord [c]
  | run {c : Char} {rest : List Char} (h : ∀ d ∈ c :: rest, isWordChar d = true) : IsWord (c :: rest)

theorem IsWord.exists_head (h : IsWord word) :
    ∃ c rest, word = c :: rest ∧ (isBracket c = true ∨ ∀ d ∈ word, isWordChar d = true) := by
  cases h with
  | @bracket c hbracket => exact ⟨c, [], rfl, .inl hbracket⟩
  | @run c rest hrun => exact ⟨c, rest, rfl, .inr hrun⟩

/-! ## The first word -/

theorem isBlank_of_isBracket {c : Char} (h : isBracket c = true) : isBlank c = false := by
  have hall : ∀ kind ∈ Bracket.all, isBlank kind.opener = false ∧ isBlank kind.closer = false := by decide
  obtain ⟨kind, hkind, hc⟩ := List.any_eq_true.1 h
  rcases Bool.or_eq_true_iff.1 hc with hc | hc <;> rw [beq_iff_eq.1 hc]
  · exact (hall kind hkind).1
  · exact (hall kind hkind).2

theorem isWordChar_eq_true_iff {c : Char} : isWordChar c = true ↔ isBlank c = false ∧ isBracket c = false := by
  simp [isWordChar]

theorem isWordChar_of_isBracket {c : Char} (h : isBracket c = true) : isWordChar c = false := by
  simp [isWordChar, h]

theorem isWordChar_of_isBlank {c : Char} (h : isBlank c = true) : isWordChar c = false := by
  simp [isWordChar, h]

theorem words_bracket {c : Char} (h : isBracket c = true) : words (c :: rest) = [c] :: words rest := by
  rw [words, if_neg (by simp [isBlank_of_isBracket h]), if_pos h]

theorem words_blank {c : Char} (h : isBlank c = true) : words (c :: rest) = words rest := by
  rw [words, if_pos h]

theorem words_gap {gap : List Char} (h : ∀ c ∈ gap, isBlank c = true) : words (gap ++ rest) = words rest := by
  induction gap with
  | nil => rfl
  | cons c gap ih =>
    obtain ⟨hc, hgap⟩ := List.forall_mem_cons.1 h
    rw [List.cons_append, words_blank hc, ih hgap]

/-- A run that ends the text, or that a character of no run follows, is one of its words. -/
theorem words_run {c : Char} (h : ∀ d ∈ c :: word, isWordChar d = true) (hrest : ∀ d ∈ rest.head?, isWordChar d = false) :
    words (c :: word ++ rest) = (c :: word) :: words rest := by
  obtain ⟨hc, hrun⟩ := List.forall_mem_cons.1 h
  obtain ⟨hblank, hbracket⟩ := isWordChar_eq_true_iff.1 hc
  have hstop : rest.takeWhile isWordChar = [] ∧ rest.dropWhile isWordChar = rest := by
    cases rest with
    | nil => exact ⟨rfl, rfl⟩
    | cons d rest =>
      have hd : isWordChar d = false := hrest d rfl
      exact ⟨List.takeWhile_cons_of_neg (by simp [hd]), List.dropWhile_cons_of_neg (by simp [hd])⟩
  rw [List.cons_append, words, if_neg (by simp [hblank]), if_neg (by simp [hbracket]), List.takeWhile_append_of_pos hrun,
    List.dropWhile_append_of_pos hrun, hstop.1, hstop.2, List.append_nil]

/-- A word that ends the text, or that white space follows, is one of its words. -/
theorem words_append (hword : IsWord word) (hrest : ∀ c ∈ rest.head?, isBlank c = true) :
    words (word ++ rest) = word :: words rest := by
  cases hword with
  | bracket h => exact words_bracket h
  | @run c run h => exact words_run h fun d hd => isWordChar_of_isBlank (hrest d hd)

theorem words_intercalate {separator : List Char} {list : List (List Char)} (hne : separator ≠ [])
    (hseparator : ∀ c ∈ separator, isBlank c = true) (h : ∀ word ∈ list, IsWord word) :
    words (separator.intercalate list) = list := by
  induction list with
  | nil => simp [words]
  | cons word list ih =>
    obtain ⟨hword, hlist⟩ := List.forall_mem_cons.1 h
    cases list with
    | nil =>
      have happend : words (word ++ []) = word :: words [] := words_append hword (by simp)
      simpa [words] using happend
    | cons next list =>
      have hhead : ∀ c ∈ (separator ++ separator.intercalate (next :: list)).head?, isBlank c = true := fun c hc => by
        obtain ⟨d, rest, rfl⟩ := List.exists_cons_of_ne_nil hne
        obtain rfl : d = c := by simpa using hc
        exact hseparator d List.mem_cons_self
      rw [List.intercalate_cons_cons, List.append_assoc, words_append hword hhead, words_gap hseparator, ih hlist]

/-! ## The layout of a text -/

/-- A word of a text, with the white space in front of it. -/
structure Piece where
  gap : List Char
  word : List Char

namespace Piece

def chars (piece : Piece) : List Char := piece.gap ++ piece.word

/-- The word is no bracket. -/
def IsRun (piece : Piece) : Prop := ∀ c ∈ piece.word, isBracket c = false

end Piece

/-- The text consists of the pieces in order and the characters `last` behind them. Every word is one, whatever belongs to no word is
white space, and there is some between two words that are no brackets. -/
structure LaidOut (text : List Char) (pieces : List Piece) (last : List Char) : Prop where
  inOrder : text = pieces.flatMap Piece.chars ++ last
  isWord : ∀ piece ∈ pieces, IsWord piece.word
  gaps : ∀ piece ∈ pieces, ∀ c ∈ piece.gap, isBlank c = true
  last : ∀ c ∈ last, isBlank c = true
  apart : pieces.IsChain fun piece next => piece.IsRun → next.IsRun → next.gap ≠ []

/-- The list has the words of some layout of the text. -/
def HasWords (text : String) (list : List String) : Prop :=
  ∃ pieces last, LaidOut text.toList pieces last ∧ list.map String.toList = pieces.map Piece.word

variable {pieces : List Piece} {piece : Piece} {last : List Char}

namespace LaidOut

theorem tail (h : LaidOut text (piece :: pieces) last) : LaidOut (pieces.flatMap Piece.chars ++ last) pieces last where
  inOrder := rfl
  isWord := (List.forall_mem_cons.1 h.isWord).2
  gaps := (List.forall_mem_cons.1 h.gaps).2
  last := h.last
  apart := h.apart.tail

theorem cons_blank {c : Char} (hc : isBlank c = true) (h : LaidOut text pieces last) :
    ∃ pieces' last', LaidOut (c :: text) pieces' last' ∧ pieces'.map Piece.word = pieces.map Piece.word := by
  cases pieces with
  | nil =>
    refine ⟨[], c :: last, ⟨congrArg (c :: ·) h.inOrder, nofun, nofun, List.forall_mem_cons.2 ⟨hc, h.last⟩, .nil⟩, rfl⟩
  | cons piece pieces =>
    obtain ⟨hword, hwords⟩ := List.forall_mem_cons.1 h.isWord
    obtain ⟨hgap, hgaps⟩ := List.forall_mem_cons.1 h.gaps
    refine ⟨⟨c :: piece.gap, piece.word⟩ :: pieces, last, ⟨congrArg (c :: ·) h.inOrder, ?_, ?_, h.last, ?_⟩, rfl⟩
    · exact List.forall_mem_cons.2 ⟨hword, hwords⟩
    · exact List.forall_mem_cons.2 ⟨List.forall_mem_cons.2 ⟨hc, hgap⟩, hgaps⟩
    · -- the gap of the first piece is no matter for what follows
      cases pieces with
      | nil => exact .singleton _
      | cons next pieces => exact List.isChain_cons_cons.2 (List.isChain_cons_cons.1 h.apart)

/-- One more word in front, unless it is a run and the text goes on with one. -/
theorem cons_word (hword : IsWord word) (h : LaidOut text pieces last)
    (hapart : (∃ c ∈ word, isBracket c = true) ∨ ∀ d ∈ text.head?, isWordChar d = false) :
    LaidOut (word ++ text) (⟨[], word⟩ :: pieces) last where
  inOrder := by simpa [Piece.chars] using h.inOrder
  isWord := List.forall_mem_cons.2 ⟨hword, h.isWord⟩
  gaps := List.forall_mem_cons.2 ⟨nofun, h.gaps⟩
  last := h.last
  apart := by
    cases pieces with
    | nil => exact .singleton _
    | cons next pieces =>
      refine List.isChain_cons_cons.2 ⟨fun hrun hnext hgap => ?_, h.apart⟩
      obtain ⟨c, hc, hbracket⟩ | hhead := hapart
      · cases (hrun c hc).symm.trans hbracket
      · have htext : text = next.word ++ (pieces.flatMap Piece.chars ++ last) := by
          simpa [Piece.chars, hgap] using h.inOrder
        obtain ⟨d, rest, hword, hd⟩ := (h.isWord next List.mem_cons_self).exists_head
        have hmem : d ∈ next.word := hword ▸ List.mem_cons_self
        -- the next word would go on where this one ended
        obtain hbracket | hall := hd
        · cases (hnext d hmem).symm.trans hbracket
        · cases (hhead d (by simp [htext, hword])).symm.trans (hall d hmem)

theorem head_of_isRun (h : LaidOut text (piece :: pieces) last) (hrun : piece.IsRun) :
    ∀ d ∈ (pieces.flatMap Piece.chars ++ last).head?, isWordChar d = false := by
  intro d hd
  cases pieces with
  | nil => exact isWordChar_of_isBlank (h.last d (List.mem_of_mem_head? hd))
  | cons next pieces =>
    have hapart := (List.isChain_cons_cons.1 h.apart).1 hrun
    have hnext := List.mem_cons_of_mem piece (List.mem_cons_self (a := next) (l := pieces))
    rw [List.flatMap_cons, Piece.chars] at hd
    cases hgap : next.gap with
    | cons c gap =>
      have hblank : isBlank c = true := h.gaps next hnext c (by simp [hgap])
      obtain rfl : c = d := by simpa [hgap] using hd
      exact isWordChar_of_isBlank hblank
    | nil =>
      obtain ⟨c, rest, hword, hc⟩ := (h.isWord next hnext).exists_head
      obtain rfl : c = d := by simpa [hgap, hword] using hd
      obtain hbracket | hall := hc
      · exact isWordChar_of_isBracket hbracket
      · -- a second run would have to stand apart from the first
        exact absurd hgap (hapart fun e he => (isWordChar_eq_true_iff.1 (hall e he)).2)

end LaidOut

/-! ## The words of a text -/

theorem isWord_of_mem_words (h : word ∈ words text) : IsWord word ∧ word ⊆ text := by
  fun_induction words text with
  | case1 => cases h
  | case2 c text hblank ih =>
    obtain ⟨hword, hsub⟩ := ih h
    exact ⟨hword, List.subset_cons_of_subset c hsub⟩
  | case3 c text hblank hbracket ih =>
    rcases List.mem_cons.1 h with rfl | h
    · exact ⟨.bracket hbracket, by simp⟩
    · obtain ⟨hword, hsub⟩ := ih h
      exact ⟨hword, List.subset_cons_of_subset c hsub⟩
  | case4 c text hblank hbracket ih =>
    rcases List.mem_cons.1 h with rfl | h
    · refine ⟨.run (List.forall_mem_cons.2 ⟨?_, fun d hd => List.mem_takeWhile_imp hd⟩), ?_⟩
      · exact isWordChar_eq_true_iff.2 ⟨Bool.eq_false_of_not_eq_true hblank, Bool.eq_false_of_not_eq_true hbracket⟩
      · exact List.cons_subset_cons c (List.takeWhile_subset isWordChar)
    · obtain ⟨hword, hsub⟩ := ih h
      exact ⟨hword, List.subset_cons_of_subset c (List.Subset.trans hsub (List.dropWhile_subset isWordChar))⟩

/-- Every text is laid out with its words. -/
theorem laidOut_words (text : List Char) : ∃ pieces last, LaidOut text pieces last ∧ words text = pieces.map Piece.word := by
  fun_induction words text with
  | case1 => exact ⟨[], [], ⟨rfl, nofun, nofun, nofun, .nil⟩, rfl⟩
  | case2 c text hblank ih =>
    obtain ⟨pieces, last, hlaid, hwords⟩ := ih
    obtain ⟨pieces', last', hlaid', hsame⟩ := hlaid.cons_blank hblank
    exact ⟨pieces', last', hlaid', hwords.trans hsame.symm⟩
  | case3 c text hblank hbracket ih =>
    obtain ⟨pieces, last, hlaid, hwords⟩ := ih
    exact ⟨_, last, hlaid.cons_word (.bracket hbracket) (.inl ⟨c, List.mem_cons_self, hbracket⟩), congrArg ([c] :: ·) hwords⟩
  | case4 c text hblank hbracket ih =>
    obtain ⟨pieces, last, hlaid, hwords⟩ := ih
    have hc : isWordChar c = true :=
      isWordChar_eq_true_iff.2 ⟨Bool.eq_false_of_not_eq_true hblank, Bool.eq_false_of_not_eq_true hbracket⟩
    have hword : IsWord (c :: text.takeWhile isWordChar) :=
      .run (List.forall_mem_cons.2 ⟨hc, fun d hd => List.mem_takeWhile_imp hd⟩)
    have hhead : ∀ d ∈ (text.dropWhile isWordChar).head?, isWordChar d = false := fun d hd => by
      have hstop := List.head?_dropWhile_not isWordChar text
      rw [Option.mem_def.1 hd] at hstop
      simpa using hstop
    have htext := hlaid.cons_word hword (.inr hhead)
    rw [List.cons_append, List.takeWhile_append_dropWhile] at htext
    exact ⟨_, last, htext, congrArg (_ :: ·) hwords⟩

/-- A text that is laid out with some words has these and no others. -/
theorem words_of_laidOut (h : LaidOut text pieces last) : words text = pieces.map Piece.word := by
  induction pieces generalizing text with
  | nil =>
    have htext : text = last ++ [] := by simpa using h.inOrder
    rw [htext, words_gap h.last, words]
    rfl
  | cons piece pieces ih =>
    have hgap := (List.forall_mem_cons.1 h.gaps).1
    have hword := (List.forall_mem_cons.1 h.isWord).1
    have hrest := ih h.tail
    rw [h.inOrder, List.flatMap_cons, List.append_assoc, Piece.chars, List.append_assoc, words_gap hgap, List.map_cons, ← hrest]
    have hhead := h.head_of_isRun
    obtain ⟨gap, word⟩ := piece
    cases hword with
    | bracket hbracket => exact words_bracket hbracket
    | run hrun => exact words_run hrun (hhead fun c hc => (isWordChar_eq_true_iff.1 (hrun c hc)).2)

theorem filter_of_isWord (h : IsWord word) : word.filter (fun c => !isBlank c) = word := by
  refine List.filter_eq_self.2 fun c hc => ?_
  cases h with
  | bracket hbracket =>
    obtain rfl := List.mem_singleton.1 hc
    simp [isBlank_of_isBracket hbracket]
  | run hrun => simp [(isWordChar_eq_true_iff.1 (hrun c hc)).1]

theorem filter_of_isBlank {gap : List Char} (h : ∀ c ∈ gap, isBlank c = true) : gap.filter (fun c => !isBlank c) = [] :=
  List.filter_eq_nil_iff.2 fun c hc => by simp [h c hc]

/-- The words of a text are the text without its white space. -/
theorem flatten_words (text : List Char) : (words text).flatten = text.filter fun c => !isBlank c := by
  obtain ⟨pieces, last, h, hwords⟩ := laidOut_words text
  have hpieces : ∀ piece ∈ pieces, piece.chars.filter (fun c => !isBlank c) = piece.word := fun piece hpiece => by
    rw [Piece.chars, List.filter_append, filter_of_isBlank (h.gaps piece hpiece), filter_of_isWord (h.isWord piece hpiece),
      List.nil_append]
  rw [hwords, h.inOrder, List.filter_append, filter_of_isBlank h.last, List.append_nil, List.filter_flatMap,
    ← List.flatMap_def]
  exact (List.flatMap_congr hpieces).symm

/-- A text has one layout of words in it, and these are the words that it is split into. Without white space they are the text
without its white space, and with any white space between them they are split into themselves. -/
theorem splitWords_laidOut (text : String) :
    (∀ list, splitWords text = list ↔ HasWords text list) ∧
    String.join (splitWords text) = String.ofList (text.toList.filter fun c => !isBlank c) ∧
    ∀ separator : String, separator ≠ "" → (∀ c ∈ separator.toList, isBlank c = true) →
      splitWords (separator.intercalate (splitWords text)) = splitWords text := by
  have hchars : (splitWords text).map String.toList = words text.toList := by
    rw [splitWords, List.map_map]
    exact (List.map_congr_left fun word _ => String.toList_ofList).trans (List.map_id _)
  refine ⟨fun list => ⟨?_, ?_⟩, ?_, fun separator hne hblank => ?_⟩
  · rintro rfl
    obtain ⟨pieces, last, hlaid, hwords⟩ := laidOut_words text.toList
    exact ⟨pieces, last, hlaid, hchars.trans hwords⟩
  · rintro ⟨pieces, last, hlaid, hlist⟩
    refine List.map_injective_iff.2 (fun a b => String.toList_inj.1) ?_
    rw [hchars, words_of_laidOut hlaid, hlist]
  · refine String.toList_inj.1 ?_
    rw [String.toList_join, String.toList_ofList, ← flatten_words, ← hchars, List.flatMap_def]
  · have hsplit : splitWords (separator.intercalate (splitWords text)) = (words text.toList).map String.ofList := by
      rw [splitWords, String.toList_intercalate, hchars, words_intercalate (by simpa using hne) hblank]
      exact fun word hword => (isWord_of_mem_words hword).1
    exact hsplit

/-- Brackets are apart by themselves, the first two words are apart by a line separator, and what joins the words again is another
kind of white space. -/
theorem splitWords_laidOut_of_call :
    "\u3000" ≠ "" ∧ (∀ c ∈ "\u3000".toList, isBlank c = true) ∧
      splitWords "[ü\u2028-5](" = ["[", "ü", "-5", "]", "("] ∧
      splitWords "[\u3000ü\u3000-5\u3000]\u3000(" = ["[", "ü", "-5", "]", "("] := by
  have hsplit : splitWords "[ü\u2028-5](" = ["[", "ü", "-5", "]", "("] := by decide +kernel
  obtain ⟨-, -, hjoined⟩ := splitWords_laidOut "[ü\u2028-5]("
  have hblank : ∀ c ∈ "\u3000".toList, isBlank c = true := List.all_eq_true.1 (by decide)
  have hagain := hjoined "\u3000" (by decide) hblank
  rw [hsplit] at hagain
  exact ⟨by decide, hblank, hsplit, hagain⟩

end Bracketry.Source
