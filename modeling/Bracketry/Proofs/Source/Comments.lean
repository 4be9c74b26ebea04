import Mathlib.Data.List.Infix
import Bracketry.Source.Lex

/-!
# Text without its comments

Two passes take the comments out: one over the text for the block comments, one over each line for the rest.

* `Source.Leftmost` : a text cut at its first mark; `Source.cutAtMark?_eq_some_iff`, `Source.cutAtMark?_eq_none_iff` say that this is
  where the text is cut;
* `Source.Unblocked` : a text and what the deletion of its block comments leaves of it; `Source.removeBlocks_eq_iff`;
* `Source.cutLines_of_splitOn` : every line is cut at its first number sign;
* `Source.removeComments_eq_self`, `Source.not_mem_removeComments`, `Source.count_removeComments`, `Source.removeComments_block` : what
  stays, what goes and which lines there are;
* `Source.stripComments_passes` : all this for source texts.
-/

namespace Bracketry.Source

variable {text before inside comment after kept : List Char}

/-! ## The first mark -/

def blockMark : List Char := ['#', '#']

/-- The text in front of the leftmost mark of a text, and the text behind it. -/
structure Leftmost (text before after : List Char) : Prop where
  here : text = before ++ blockMark ++ after
  first : ∀ before' after', text = before' ++ blockMark ++ after' → before.length ≤ before'.length

theorem cutAtMark?_eq_none (h : '#' ∉ text) : cutAtMark? text = none := by
  fun_induction cutAtMark? text with
  | case1 => exact absurd List.mem_cons_self h
  | case2 c text hmark ih => rw [ih (List.not_mem_of_not_mem_cons h)]; rfl
  | case3 => rfl

theorem cutAtMark?_eq_none_iff : cutAtMark? text = none ↔ ¬blockMark <:+: text := by
  fun_induction cutAtMark? text with
  | case1 after =>
    have hinfix : blockMark <:+: '#' :: '#' :: after := List.IsPrefix.isInfix (List.prefix_append blockMark after)
    exact iff_of_false (Option.some_ne_none _) (not_not_intro hinfix)
  | case2 c text hmark ih =>
    have hprefix : ¬blockMark <+: c :: text := by
      rintro ⟨after, hafter⟩
      obtain ⟨rfl, rfl⟩ := List.cons_eq_cons.1 hafter
      exact hmark after rfl rfl
    rw [Option.map_eq_none_iff, ih, List.infix_cons_iff, not_or, and_iff_right hprefix]
  | case3 => simp [blockMark]

theorem leftmost_of_cutAtMark? (h : cutAtMark? text = some (before, after)) : Leftmost text before after := by
  fun_induction cutAtMark? text generalizing before after with
  | case1 =>
    cases h
    exact ⟨rfl, fun _ _ _ => Nat.zero_le _⟩
  | case2 c text hmark ih =>
    obtain ⟨⟨b, a⟩, hcut, heq⟩ := Option.map_eq_some_iff.1 h
    cases heq
    obtain ⟨hhere, hfirst⟩ := ih hcut
    refine ⟨congrArg (c :: ·) hhere, fun before' after' heq => ?_⟩
    cases before' with
    | nil =>
      obtain ⟨rfl, rfl⟩ := List.cons_eq_cons.1 heq
      exact (hmark after' rfl rfl).elim
    | cons d before' =>
      obtain ⟨-, htext⟩ := List.cons_eq_cons.1 heq
      exact Nat.succ_le_succ (hfirst before' after' htext)
  | case3 => cases h

theorem cutAtMark?_eq_some_iff : cutAtMark? text = some (before, after) ↔ Leftmost text before after := by
  refine ⟨leftmost_of_cutAtMark?, fun h => ?_⟩
  cases hcut : cutAtMark? text with
  | none =>
    have hinfix : blockMark <:+: text := ⟨before, after, h.here.symm⟩
    exact absurd hinfix (cutAtMark?_eq_none_iff.1 hcut)
  | some cut =>
    obtain ⟨before', after'⟩ := cut
    have hcut' := leftmost_of_cutAtMark? hcut
    have hlength : before'.length = before.length :=
      Nat.le_antisymm (hcut'.first _ _ h.here) (h.first _ _ hcut'.here)
    have heq : before' ++ (blockMark ++ after') = before ++ (blockMark ++ after) := by
      rw [← List.append_assoc, ← List.append_assoc, ← hcut'.here, ← h.here]
    obtain ⟨rfl, hafter⟩ := List.append_inj heq hlength
    rw [List.append_cancel_left hafter]

theorem cutAtMark?_append (h : '#' ∉ before) : cutAtMark? (before ++ blockMark ++ after) = some (before, after) := by
  induction before with
  | nil => rfl
  | cons c before ih =>
    obtain ⟨hc, hbefore⟩ := List.ne_and_not_mem_of_not_mem_cons h
    rw [List.cons_append, List.cons_append, cutAtMark?, ih hbefore]
    · rfl
    · exact fun rest hsharp => absurd hsharp.symm hc

/-! ## Block comments -/

/-- A text, and what is left of it when its block comments are deleted from left to right: each leftmost mark with all that stands up to
the nearest mark behind it, and that mark. A mark that is not closed stays where it is. -/
inductive Unblocked : List Char → List Char → Prop
  | unmarked {text : List Char} (h : ¬blockMark <:+: text) : Unblocked text text
  | unclosed {text before inside : List Char} (opens : Leftmost text before inside) (h : ¬blockMark <:+: inside) : Unblocked text text
  | block {text before inside comment after kept : List Char} (opens : Leftmost text before inside)
      (closes : Leftmost inside comment after) (rest : Unblocked after kept) : Unblocked text (before ++ kept)

theorem removeBlocks_of_unmarked (h : cutAtMark? text = none) : removeBlocks text = text := by
  rw [removeBlocks]
  split
  · rfl
  · next hopens => cases h.symm.trans hopens

theorem removeBlocks_of_unclosed (hopens : cutAtMark? text = some (before, inside)) (hcloses : cutAtMark? inside = none) :
    removeBlocks text = text := by
  rw [removeBlocks]
  split
  · rfl
  · next hopens' =>
    cases hopens.symm.trans hopens'
    split
    · rfl
    · next hcloses' => cases hcloses.symm.trans hcloses'

theorem removeBlocks_of_block (hopens : cutAtMark? text = some (before, inside))
    (hcloses : cutAtMark? inside = some (comment, after)) : removeBlocks text = before ++ removeBlocks after := by
  rw [removeBlocks]
  split
  · next hopens' => cases hopens.symm.trans hopens'
  · next hopens' =>
    cases hopens.symm.trans hopens'
    split
    · next hcloses' => cases hcloses.symm.trans hcloses'
    · next hcloses' =>
      cases hcloses.symm.trans hcloses'
      rfl

/-- Every text has one such rest. -/
theorem removeBlocks_eq_iff : removeBlocks text = kept ↔ Unblocked text kept := by
  constructor
  · rintro rfl
    fun_induction removeBlocks text with
    | case1 text hopens => exact .unmarked (cutAtMark?_eq_none_iff.1 hopens)
    | case2 text before inside hopens hcloses =>
      exact .unclosed (cutAtMark?_eq_some_iff.1 hopens) (cutAtMark?_eq_none_iff.1 hcloses)
    | case3 text before inside hopens comment after hcloses ih =>
      exact .block (cutAtMark?_eq_some_iff.1 hopens) (cutAtMark?_eq_some_iff.1 hcloses) ih
  · intro h
    induction h with
    | unmarked h => exact removeBlocks_of_unmarked (cutAtMark?_eq_none_iff.2 h)
    | unclosed opens h => exact removeBlocks_of_unclosed (cutAtMark?_eq_some_iff.2 opens) (cutAtMark?_eq_none_iff.2 h)
    | block opens closes rest ih =>
      rw [removeBlocks_of_block (cutAtMark?_eq_some_iff.2 opens) (cutAtMark?_eq_some_iff.2 closes), ih]

/-! ## Line comments -/

def uncommented (line : List Char) : List Char := line.takeWhile (· != '#')

theorem intercalate_cons {c : Char} {separator line : List Char} {lines : List (List Char)} :
    separator.intercalate ((c :: line) :: lines) = c :: separator.intercalate (line :: lines) := by
  cases lines with
  | nil => simp
  | cons next lines => rw [List.intercalate_cons_cons, List.intercalate_cons_cons]; rfl

/-- Every line is cut at its first number sign; in front of the first line there may be a comment already. -/
theorem cutLines_of_splitOn {inComment : Bool} {line : List Char} {lines : List (List Char)}
    (h : text.splitOn '\n' = line :: lines) :
    cutLines inComment text = ['\n'].intercalate ((if inComment then [] else uncommented line) :: lines.map uncommented) := by
  induction text generalizing inComment line lines with
  | nil =>
    obtain ⟨rfl, rfl⟩ := List.cons_eq_cons.1 h
    cases inComment <;> rfl
  | cons c text ih =>
    obtain ⟨first, others, hsplit⟩ := List.exists_cons_of_ne_nil (List.splitOn_ne_nil '\n' text)
    rw [List.splitOn_cons_eq_if_modifyHead, hsplit] at h
    by_cases hnewline : c = '\n'
    · subst hnewline
      obtain ⟨rfl, rfl⟩ := List.cons_eq_cons.1 h
      rw [cutLines, if_pos rfl, ih hsplit, List.map_cons, List.intercalate_cons_cons]
      cases inComment <;> rfl
    · rw [if_neg (by simpa using hnewline), List.modifyHead_cons] at h
      obtain ⟨rfl, rfl⟩ := List.cons_eq_cons.1 h
      rw [cutLines, if_neg hnewline]
      by_cases hcomment : (inComment || c == '#') = true
      · have hline : (if inComment then [] else uncommented (c :: first)) = [] := by
          cases inComment with
          | true => rfl
          | false =>
            obtain rfl : c = '#' := by simpa using hcomment
            rfl
        rw [if_pos hcomment, ih hsplit, hline]
        rfl
      · obtain ⟨rfl, hc⟩ : inComment = false ∧ c ≠ '#' := by simpa using hcomment
        have hline : uncommented (c :: first) = c :: uncommented first := List.takeWhile_cons_of_pos (by simpa using hc)
        rw [if_neg hcomment, ih hsplit, if_neg Bool.false_ne_true, if_neg Bool.false_ne_true, hline, intercalate_cons]

theorem cutLines_eq_intercalate (text : List Char) :
    cutLines false text = ['\n'].intercalate ((text.splitOn '\n').map uncommented) := by
  obtain ⟨line, lines, hsplit⟩ := List.exists_cons_of_ne_nil (List.splitOn_ne_nil '\n' text)
  rw [cutLines_of_splitOn hsplit, hsplit, List.map_cons]
  rfl

theorem count_cutLines (inComment : Bool) (text : List Char) : (cutLines inComment text).count '\n' = text.count '\n' := by
  fun_induction cutLines inComment text with
  | case1 => rfl
  | case2 inComment text ih => rw [List.count_cons_self, List.count_cons_self, ih]
  | case3 inComment c text hnewline hin ih => rw [ih, List.count_cons_of_ne hnewline]
  | case4 inComment c text hnewline hout ih => rw [List.count_cons_of_ne hnewline, List.count_cons_of_ne hnewline, ih]

/-! ## Both passes -/

theorem not_mem_removeComments (text : List Char) : '#' ∉ removeComments text := by
  unfold removeComments
  generalize removeBlocks text = text
  generalize false = inComment
  fun_induction cutLines inComment text with
  | case1 => exact List.not_mem_nil
  | case2 inComment text ih => exact List.not_mem_cons_of_ne_of_not_mem (by decide) ih
  | case3 inComment c text hnewline hin ih => exact ih
  | case4 inComment c text hnewline hout ih =>
    refine List.not_mem_cons_of_ne_of_not_mem (fun heq => hout ?_) ih
    simp [← heq]

theorem cutLines_eq_self (h : '#' ∉ text) : cutLines false text = text := by
  induction text with
  | nil => rfl
  | cons c text ih =>
    obtain ⟨hc, htext⟩ := List.ne_and_not_mem_of_not_mem_cons h
    have hout : ¬(false || c == '#') = true := by simpa using Ne.symm hc
    rw [cutLines, if_neg hout, ih htext, ite_self]

theorem removeComments_eq_self (h : '#' ∉ text) : removeComments text = text := by
  rw [removeComments, removeBlocks_of_unmarked (cutAtMark?_eq_none h), cutLines_eq_self h]

/-- The lines are those that stand outside the closed block comments. -/
theorem count_removeComments (h : Unblocked text kept) : (removeComments text).count '\n' = kept.count '\n' := by
  rw [removeComments, removeBlocks_eq_iff.2 h, count_cutLines]

/-- What stands around a block comment is joined. -/
theorem removeComments_block (hbefore : '#' ∉ before) (hcomment : '#' ∉ comment) (hafter : '#' ∉ after) :
    removeComments (before ++ blockMark ++ (comment ++ blockMark ++ after)) = before ++ after := by
  have hmark : '#' ∉ before ++ after := fun hmem => (List.mem_append.1 hmem).elim hbefore hafter
  rw [removeComments, removeBlocks_of_block (cutAtMark?_append hbefore) (cutAtMark?_append hcomment),
    removeBlocks_of_unmarked (cutAtMark?_eq_none hafter), cutLines_eq_self hmark]

/-- The comments of a source text are taken out in two passes. No number sign is left then, so that nothing is left to take out, and
the lines are those that were outside the closed block comments. -/
theorem stripComments_passes :
    (∀ source result, stripComments source = result ↔
      ∃ kept, Unblocked source.toList kept ∧ result.toList = ['\n'].intercalate ((kept.splitOn '\n').map uncommented)) ∧
    (∀ source, '#' ∉ (stripComments source).toList) ∧
    (∀ source, stripComments (stripComments source) = stripComments source) ∧
    (∀ source, '#' ∉ source.toList → stripComments source = source) ∧
    (∀ source kept, Unblocked source.toList kept → (stripComments source).toList.count '\n' = kept.count '\n') ∧
    ∀ a b c : String, '#' ∉ a.toList → '#' ∉ b.toList → '#' ∉ c.toList →
      stripComments (a ++ "##" ++ c ++ "##" ++ b) = a ++ b := by
  have hchars : ∀ source, (stripComments source).toList = removeComments source.toList := fun source => String.toList_ofList
  have hmark : ∀ source, '#' ∉ (stripComments source).toList := fun source => by
    rw [hchars]
    exact not_mem_removeComments source.toList
  have hself : ∀ source, '#' ∉ source.toList → stripComments source = source := fun source h => by
    rw [stripComments, removeComments_eq_self h, String.ofList_toList]
  refine ⟨fun source result => ?_, hmark, fun source => hself _ (hmark source), hself, fun source kept h => ?_,
    fun a b c ha hb hc => ?_⟩
  · rw [← String.toList_inj, hchars, removeComments, cutLines_eq_intercalate]
    constructor
    · intro hresult
      exact ⟨_, removeBlocks_eq_iff.1 rfl, hresult.symm⟩
    · rintro ⟨kept, hkept, hresult⟩
      rw [removeBlocks_eq_iff.2 hkept, hresult]
  · rw [hchars, count_removeComments h]
  · refine String.toList_inj.1 ?_
    have hsharps : "##".toList = blockMark := rfl
    simp only [hchars, String.toList_append, hsharps]
    have hassoc : a.toList ++ blockMark ++ c.toList ++ blockMark ++ b.toList =
        a.toList ++ blockMark ++ (c.toList ++ blockMark ++ b.toList) := by simp
    rw [hassoc]
    exact removeComments_block ha hc hb

/-- Three number signs open one block comment; a mark that is not closed begins a line comment, and what a block comment stood
between is one word. -/
theorem stripComments_passes_of_glued :
    stripComments "a### x ##b# c\n## d" = "ab\n" ∧ "ab\n".toList.count '\n' = "ab# c\n## d".toList.count '\n' ∧
      '#' ∉ "in".toList ∧ '#' ∉ "c".toList ∧ '#' ∉ " x\n".toList ∧
      stripComments ("in" ++ "##" ++ " x\n" ++ "##" ++ "c") = "inc" ∧ '#' ∉ "inc".toList ∧ stripComments "inc" = "inc" := by
  obtain ⟨hpasses, -, -, hself, hcount, hglued⟩ := stripComments_passes
  have hopens : Leftmost "a### x ##b# c\n## d".toList "a".toList "# x ##b# c\n## d".toList := leftmost_of_cutAtMark? rfl
  have hcloses : Leftmost "# x ##b# c\n## d".toList "# x ".toList "b# c\n## d".toList := leftmost_of_cutAtMark? rfl
  have hunclosed : Leftmost "b# c\n## d".toList "b# c\n".toList " d".toList := leftmost_of_cutAtMark? rfl
  have hkept : Unblocked "a### x ##b# c\n## d".toList ("a".toList ++ "b# c\n## d".toList) :=
    .block hopens hcloses (.unclosed hunclosed (cutAtMark?_eq_none_iff.1 rfl))
  have hstripped : stripComments "a### x ##b# c\n## d" = "ab\n" := (hpasses _ _).2 ⟨_, hkept, by decide⟩
  have hlines := hcount _ _ hkept
  rw [hstripped] at hlines
  exact ⟨hstripped, hlines, by decide, by decide, by decide, hglued "in" "c" " x\n" (by decide) (by decide) (by decide), by decide,
    hself "inc" (by decide)⟩

end Bracketry.Source
