import Bracketry.Proofs.CProgram.Layout
import Mathlib.Data.List.DropRight

/-!
# Reading C programs back

The text of a program has one listing, so what is executed is what is written.

* `Expr.read?`, `Statement.read?`, `Line.read?` : expressions, statements and lines from their text. These are left inverses of the
  functions `text` (`Expr.read?_text`, `Statement.read?_text`, `Line.read?_text`), which are injective therefore;
* `eq_of_flatMap_concat_eq` : parts that end at a mark are known from all of them together;
* `Listing.Named`, `Listing.eq_of_text_eq` : a listing whose routines have names is known from its text;
* `listing_eq_of_ofProgram_eq` : programs with the same text have the same listing.
-/

namespace Bracketry.CProgram

/-! ## Expressions -/

def isNumeralChar (c : Char) : Bool := c.isDigit || c == '-' || c == '+'

theorem isNumeralChar_of_denotes {word : List Char} {v : Int} (h : Numeral.Denotes word v) {c : Char} (hc : c ∈ word) :
    isNumeralChar c = true := by
  have hdigit : ∀ {digits : List Char}, Numeral.IsDigits digits → c ∈ digits → isNumeralChar c = true := fun hdigits hc => by
    simp [isNumeralChar, hdigits.2 c hc]
  cases h with
  | unsigned h => exact hdigit h hc
  | plus h =>
    rcases List.mem_cons.1 hc with rfl | hc
    · decide
    · exact hdigit h hc
  | minus h =>
    rcases List.mem_cons.1 hc with rfl | hc
    · decide
    · exact hdigit h hc

/-- The expression that a text begins with, and what follows it. -/
def Expr.read? : List Char → Option (Expr × List Char)
  | 'd' :: '0' :: '[' :: text => do
    let (address, ']' :: rest) ← read? text | none
    return (.cell address, rest)
  | 's' :: '0' :: rest => some (.parameter, rest)
  | text => do
    let value ← Numeral.read? (text.takeWhile isNumeralChar)
    return (.literal value, text.dropWhile isNumeralChar)

theorem Expr.read?_of_numeral {c : Char} {word rest : List Char} {value : Int64} (hchars : ∀ d ∈ c :: word, isNumeralChar d = true)
    (hvalue : Numeral.read? (c :: word) = some value) (hrest : ∀ d ∈ rest.head?, isNumeralChar d = false) :
    Expr.read? (c :: word ++ rest) = some (.literal value, rest) := by
  have hend : rest.takeWhile isNumeralChar = [] ∧ rest.dropWhile isNumeralChar = rest := by
    cases rest with
    | nil => exact ⟨rfl, rfl⟩
    | cons d rest => simp [hrest d rfl]
  have hread : Expr.read? (c :: word ++ rest) = (do
      let read ← Numeral.read? ((c :: word ++ rest).takeWhile isNumeralChar)
      return (.literal read, (c :: word ++ rest).dropWhile isNumeralChar)) := by
    -- neither a cell nor the argument begins like a number
    have hc := hchars c List.mem_cons_self
    rw [List.cons_append]
    unfold Expr.read?
    split
    · next heq => rw [(List.cons.inj heq).1] at hc; cases hc
    · next heq => rw [(List.cons.inj heq).1] at hc; cases hc
    · rfl
  rw [hread, List.takeWhile_append_of_pos hchars, List.dropWhile_append_of_pos hchars, hend.1, hend.2, List.append_nil, hvalue]
  rfl

theorem Expr.toList_text_cell (address : Expr) (rest : List Char) :
    address.cell.text.toList ++ rest = 'd' :: '0' :: '[' :: (address.text.toList ++ ']' :: rest) := by
  change ("d0" ++ "[" ++ address.text ++ "]").toList ++ rest = _
  simp [String.toList_append]

/-- An expression is read from its text, unless the text is a number that goes on. -/
theorem Expr.read?_text (e : Expr) (rest : List Char) (hrest : ∀ c ∈ rest.head?, isNumeralChar c = false) :
    Expr.read? (e.text.toList ++ rest) = some (e, rest) := by
  induction e generalizing rest with
  | literal value =>
    have hdenotes := Numeral.denotes_toString value.toInt
    have hvalue := Numeral.read?_toString value
    change Expr.read? ((toString value.toInt).toList ++ rest) = _
    generalize (toString value.toInt).toList = word at hdenotes hvalue
    cases word with
    | nil => cases hvalue
    | cons c word => exact Expr.read?_of_numeral (fun d => isNumeralChar_of_denotes hdenotes) hvalue hrest
  | parameter => rfl
  | cell address ih =>
    rw [Expr.toList_text_cell, Expr.read?, ih _ (by simp; decide)]
    rfl

def Expr.readCell? (text : List Char) : Option (Expr × List Char) :=
  match Expr.read? text with
  | some (.cell address, rest) => some (address, rest)
  | _ => none

theorem Expr.readCell?_text (address : Expr) (rest : List Char) :
    Expr.readCell? (address.cell.text.toList ++ rest) = some (address, rest) := by
  rw [Expr.readCell?, Expr.toList_text_cell, Expr.read?, Expr.read?_text address _ (by simp; decide)]
  rfl

theorem Expr.text_injective : Function.Injective Expr.text := fun e other h => by
  have hother := Expr.read?_text other [] (by simp)
  rw [← h, Expr.read?_text e _ (by simp)] at hother
  exact congrArg Prod.fst (Option.some.inj hother)

def isExprChar (c : Char) : Bool := isNumeralChar c || "d0[]s".toList.contains c

theorem Expr.isExprChar_of_mem (e : Expr) {c : Char} (hc : c ∈ e.text.toList) : isExprChar c = true := by
  induction e with
  | literal value =>
    have hnumeral := isNumeralChar_of_denotes (Numeral.denotes_toString value.toInt) hc
    rw [isExprChar, hnumeral, Bool.true_or]
  | parameter => exact List.all_eq_true.1 (show "s0".toList.all isExprChar = true by decide) c hc
  | cell address ih =>
    rw [← List.append_nil (Expr.text _).toList, Expr.toList_text_cell] at hc
    simp only [List.mem_cons, List.mem_append, List.not_mem_nil, or_false] at hc
    rcases hc with rfl | rfl | rfl | haddress | rfl
    · decide
    · decide
    · decide
    · exact ih haddress
    · decide

/-! ## Statements -/

/-- The statement on the cell at an address, from what follows the cell. -/
def Statement.readAfter? (address : Expr) : List Char → Option Statement
  | '+' :: _ => some (.increment address)
  | '-' :: _ => some (.decrement address)
  | ' ' :: '=' :: ' ' :: text =>
    match Expr.read? text with
    | some (value, _) => some (.assign address value)
    | none => some (.get address)
  | _ => none

/-- The statement of a text. What is called is all that stands before the last bracket. -/
def Statement.read? (text : List Char) : Option Statement :=
  match text with
  | 'w' :: _ => some .loop
  | '\x7d' :: _ => some .close
  | 'p' :: _ => (Expr.readCell? (text.drop "putchar(".length)).map fun (address, _) => .put address
  | 'i' :: _ => (Expr.readCell? (text.drop "if (!".length)).map fun (address, _) => .leaveUnless address
  | 'a' :: '_' :: rest =>
    (Expr.read? (rest.rtakeWhile (· != '('))).map fun (argument, _) =>
      .call (String.ofList (rest.rdropWhile (· != '(')).dropLast) argument
  | _ => (Expr.readCell? text).bind fun (address, rest) => Statement.readAfter? address rest

theorem Statement.read?_of_cell (address : Expr) (rest : List Char) :
    Statement.read? (address.cell.text.toList ++ rest) = Statement.readAfter? address rest := by
  have hread : Statement.read? (address.cell.text.toList ++ rest) =
      (Expr.readCell? (address.cell.text.toList ++ rest)).bind fun (address, rest) => Statement.readAfter? address rest := by
    rw [Expr.toList_text_cell]
    rfl
  rw [hread, Expr.readCell?_text]
  rfl

theorem rtakeWhile_append_cons {p : Char → Bool} {c : Char} (hc : p c = false) (before : List Char) {after : List Char}
    (h : ∀ d ∈ after, p d = true) : (before ++ c :: after).rtakeWhile p = after := by
  have hreverse : ∀ d ∈ after.reverse, p d = true := fun d hd => h d (List.mem_reverse.1 hd)
  rw [List.rtakeWhile, List.reverse_append, List.reverse_cons, List.append_assoc, List.takeWhile_append_of_pos hreverse]
  simp [hc]

theorem rdropWhile_append_cons {p : Char → Bool} {c : Char} (hc : p c = false) (before : List Char) {after : List Char}
    (h : ∀ d ∈ after, p d = true) : (before ++ c :: after).rdropWhile p = before ++ [c] := by
  have hreverse : ∀ d ∈ after.reverse, p d = true := fun d hd => h d (List.mem_reverse.1 hd)
  rw [List.rdropWhile, List.reverse_append, List.reverse_cons, List.append_assoc, List.dropWhile_append_of_pos hreverse]
  simp [hc]

theorem Statement.read?_text (s : Statement) : Statement.read? s.text.toList = some s := by
  cases s with
  | loop => decide
  | close => decide
  | increment address =>
    change Statement.read? (address.cell.text ++ "++;").toList = _
    rw [String.toList_append, Statement.read?_of_cell]
    rfl
  | decrement address =>
    change Statement.read? (address.cell.text ++ "--;").toList = _
    rw [String.toList_append, Statement.read?_of_cell]
    rfl
  | get address =>
    change Statement.read? (address.cell.text ++ " = " ++ "read_byte" ++ "();").toList = _
    rw [String.append_assoc, String.append_assoc, String.toList_append, Statement.read?_of_cell]
    rfl
  | assign address value =>
    change Statement.read? (address.cell.text ++ " = " ++ value.text ++ ";").toList = _
    have hread := Expr.read?_text value [';'] (by simp; decide)
    rw [String.append_assoc, String.append_assoc, String.toList_append, Statement.read?_of_cell, String.toList_append, String.toList_append]
    change (match Expr.read? (value.text.toList ++ [';']) with
      | some (value, _) => some (Statement.assign address value)
      | none => some (.get address)) = _
    rw [hread]
  | put address =>
    change Statement.read? ("putchar(" ++ address.cell.text ++ ");").toList = _
    have hread := Expr.readCell?_text address [')', ';']
    rw [String.append_assoc, String.toList_append, String.toList_append]
    change (Expr.readCell? (address.cell.text.toList ++ [')', ';'])).map _ = _
    rw [hread]
    rfl
  | leaveUnless address =>
    change Statement.read? ("if (!" ++ address.cell.text ++ ") \x7b break; \x7d").toList = _
    have hread := Expr.readCell?_text address ") \x7b break; \x7d".toList
    rw [String.append_assoc, String.toList_append, String.toList_append]
    change (Expr.readCell? (address.cell.text.toList ++ ") \x7b break; \x7d".toList)).map _ = _
    rw [hread]
    rfl
  | call name argument =>
    have hcall : (Statement.call name argument).text.toList =
        'a' :: '_' :: (name.toList ++ '(' :: (argument.text.toList ++ [')', ';'])) := by
      change ("a_" ++ name ++ "(" ++ argument.text ++ ");").toList = _
      simp [String.toList_append]
    have hargument : ∀ c ∈ argument.text.toList ++ [')', ';'], (c != '(') = true := by
      intro c hc
      rw [bne_iff_ne]
      rintro rfl
      rcases List.mem_append.1 hc with hc | hc
      · exact absurd (argument.isExprChar_of_mem hc) (by decide)
      · exact absurd hc (by decide)
    rw [hcall, Statement.read?, rtakeWhile_append_cons rfl _ hargument, rdropWhile_append_cons rfl _ hargument,
      Expr.read?_text argument _ (by simp; decide), List.dropLast_concat, String.ofList_toList]
    rfl

theorem Statement.text_injective : Function.Injective Statement.text := fun s other h => by
  have hread := other.read?_text
  rw [← h, s.read?_text] at hread
  exact Option.some.inj hread

/-! ## Lines -/

theorem toList_pushn (c : Char) (n : Nat) : ("".pushn c n).toList = List.replicate n c := by
  induction n with
  | zero => rfl
  | succ n ih =>
    have hpush : "".pushn c (n + 1) = ("".pushn c n).push c := rfl
    rw [hpush, String.toList_push, ih, List.replicate_succ']

theorem Line.toList_text (line : Line) :
    line.text.toList = List.replicate (4 * line.depth) ' ' ++ line.statement.text.toList := by
  rw [Line.text, String.toList_append, toList_pushn]

theorem Statement.exists_text_eq_cons (s : Statement) : ∃ c text, s.text.toList = c :: text ∧ (c == ' ') = false := by
  have hread := s.read?_text
  cases htext : s.text.toList with
  | nil =>
    rw [htext] at hread
    cases hread
  | cons c text =>
    refine ⟨c, text, rfl, beq_eq_false_iff_ne.2 ?_⟩
    rintro rfl
    rw [htext] at hread
    cases hread

def Line.read? (text : List Char) : Option Line :=
  (Statement.read? (text.dropWhile (· == ' '))).map fun s => ⟨(text.takeWhile (· == ' ')).length / 4, s⟩

theorem Line.read?_text (line : Line) : Line.read? line.text.toList = some line := by
  obtain ⟨c, text, htext, hc⟩ := line.statement.exists_text_eq_cons
  have hblank : ∀ d ∈ List.replicate (4 * line.depth) ' ', (d == ' ') = true := fun d hd => by simp [List.eq_of_mem_replicate hd]
  have hindent : (line.text.toList.takeWhile (· == ' ')).length = 4 * line.depth := by
    rw [line.toList_text, List.takeWhile_append_of_pos hblank, htext, List.takeWhile_cons_of_neg (by simp [hc])]
    simp
  have hrest : line.text.toList.dropWhile (· == ' ') = line.statement.text.toList := by
    rw [line.toList_text, List.dropWhile_append_of_pos hblank, htext, List.dropWhile_cons_of_neg (by simp [hc])]
  rw [Line.read?, hrest, hindent, line.statement.read?_text, Nat.mul_div_cancel_left _ (by decide)]
  rfl

theorem Line.text_injective : Function.Injective Line.text := fun line other h => by
  have hread := other.read?_text
  rw [← h, line.read?_text] at hread
  exact Option.some.inj hread

/-! ## Parts and marks -/

theorem splitOnP_flatMap_concat {α : Type} [BEq α] [LawfulBEq α] {mark : α} {parts : List (List α)} {rest : List α}
    (hparts : ∀ part ∈ parts, mark ∉ part) (hrest : mark ∉ rest) :
    (parts.flatMap (· ++ [mark]) ++ rest).splitOnP (· == mark) = parts ++ [rest] := by
  have hfalse : ∀ part : List α, mark ∉ part → ∀ a ∈ part, (a == mark) = false := by
    intro part hpart a ha
    rw [beq_eq_false_iff_ne]
    rintro rfl
    exact hpart ha
  induction parts with
  | nil => exact List.splitOnP_eq_singleton (hfalse rest hrest)
  | cons part parts ih =>
    obtain ⟨hpart, hparts⟩ := List.forall_mem_cons.1 hparts
    rw [List.flatMap_cons, List.append_assoc, List.append_assoc, List.singleton_append,
      List.splitOnP_append_cons part _ (p := (· == mark)) (beq_self_eq_true mark), ih hparts, List.splitOnP_eq_singleton (hfalse part hpart)]
    rfl

theorem eq_of_flatMap_concat_eq {α : Type} [BEq α] [LawfulBEq α] {mark : α} {parts others : List (List α)} {rest last : List α}
    (hparts : ∀ part ∈ parts, mark ∉ part) (hrest : mark ∉ rest) (hothers : ∀ part ∈ others, mark ∉ part) (hlast : mark ∉ last)
    (h : parts.flatMap (· ++ [mark]) ++ rest = others.flatMap (· ++ [mark]) ++ last) : parts = others ∧ rest = last := by
  have hsplit := splitOnP_flatMap_concat hparts hrest
  rw [h, splitOnP_flatMap_concat hothers hlast] at hsplit
  obtain ⟨rfl, hcons⟩ := List.append_inj' hsplit rfl
  exact ⟨rfl, (List.cons.inj hcons).1.symm⟩

/-- Lines without line feeds are known from their text. -/
theorem eq_of_written_eq {lines others : List String} (hlines : ∀ line ∈ lines, '\n' ∉ line.toList)
    (hothers : ∀ line ∈ others, '\n' ∉ line.toList) (h : written lines = written others) : lines = others := by
  have htext : ∀ lines : List String, (written lines).toList = (lines.map String.toList).flatMap (· ++ ['\n']) ++ [] := by
    intro lines
    induction lines with
    | nil => rfl
    | cons line lines ih =>
      rw [written_cons, String.toList_append, String.toList_append, ih, List.map_cons, List.flatMap_cons]
      simp only [List.append_assoc]
      rfl
  have hchars := congrArg String.toList h
  rw [htext, htext] at hchars
  obtain ⟨hmap, -⟩ := eq_of_flatMap_concat_eq (List.forall_mem_map.2 hlines) List.not_mem_nil
    (List.forall_mem_map.2 hothers) List.not_mem_nil hchars
  exact List.map_injective_iff.2 (fun _ _ => String.toList_inj.1) hmap

/-! ## Lines of one line -/

theorem not_mem_append {text after : String} (htext : '\n' ∉ text.toList) (hafter : '\n' ∉ after.toList) :
    '\n' ∉ (text ++ after).toList := by
  rw [String.toList_append, List.mem_append]
  exact not_or.2 ⟨htext, hafter⟩

theorem Expr.feed_not_mem_text (e : Expr) : '\n' ∉ e.text.toList := fun hmem => by cases e.isExprChar_of_mem hmem

theorem feed_not_mem_name {name : String} (h : IsName name) : '\n' ∉ name.toList := fun hmem => by cases h.2 _ hmem

theorem Statement.feed_not_mem_text {s : Statement} (h : ∀ name argument, s = .call name argument → IsName name) :
    '\n' ∉ s.text.toList := by
  cases s with
  | loop => decide
  | close => decide
  | increment address => exact not_mem_append address.cell.feed_not_mem_text (by decide)
  | decrement address => exact not_mem_append address.cell.feed_not_mem_text (by decide)
  | put address => exact not_mem_append (not_mem_append (by decide) address.cell.feed_not_mem_text) (by decide)
  | leaveUnless address => exact not_mem_append (not_mem_append (by decide) address.cell.feed_not_mem_text) (by decide)
  | get address =>
    change '\n' ∉ (address.cell.text ++ " = " ++ "read_byte" ++ "();").toList
    rw [String.append_assoc, String.append_assoc]
    exact not_mem_append address.cell.feed_not_mem_text (by decide)
  | assign address value =>
    exact not_mem_append (not_mem_append (not_mem_append address.cell.feed_not_mem_text (by decide)) value.feed_not_mem_text) (by decide)
  | call name argument =>
    have hname := feed_not_mem_name (h name argument rfl)
    exact not_mem_append (not_mem_append (not_mem_append (not_mem_append (by decide) hname) (by decide)) argument.feed_not_mem_text)
      (by decide)

theorem Line.feed_not_mem_text {line : Line} (h : ∀ name argument, line.statement = .call name argument → IsName name) :
    '\n' ∉ line.text.toList := by
  rw [line.toList_text, List.mem_append, List.mem_replicate]
  exact not_or.2 ⟨fun hblank => absurd hblank.2 (by decide), Statement.feed_not_mem_text h⟩

theorem Line.text_ne_empty (line : Line) : line.text ≠ "" := by
  obtain ⟨c, text, htext, -⟩ := line.statement.exists_text_eq_cons
  rw [ne_eq, ← String.toList_eq_nil_iff, line.toList_text, htext]
  simp

/-! ## Listings -/

/-- The definition of a routine without the empty line at its end. -/
def routineBlock (routine : String × List Line) : List String :=
  ("void " ++ routineName routine.1 ++ "(unsigned int s0) \x7b") :: routine.2.map Line.text ++ ["\x7d"]

theorem routineBlock_injective : Function.Injective routineBlock := by
  rintro ⟨name, lines⟩ ⟨other, others⟩ h
  obtain ⟨hhead, hrest⟩ := List.cons.inj h
  have hname : name = other := by
    simpa [routineName, ← String.toList_inj, String.toList_append] using hhead
  have hlines : lines = others := List.map_injective_iff.2 Line.text_injective (List.append_inj' hrest rfl).1
  rw [hname, hlines]

theorem mainLines_inj {dataSize size : Nat} {lines others : List Line} (h : mainLines dataSize lines = mainLines size others) :
    dataSize = size ∧ lines = others := by
  obtain ⟨hfront, -⟩ := List.append_inj' h rfl
  obtain ⟨hhead, hmap⟩ := List.append_inj hfront rfl
  have hsize : (toString dataSize).toList = (toString size).toList := by
    simpa [← String.toList_inj, String.toList_append] using hhead
  rw [Nat.toString_eq_repr, Nat.toString_eq_repr, Nat.repr_eq_ofList_toDigits, Nat.repr_eq_ofList_toDigits, String.toList_ofList,
    String.toList_ofList] at hsize
  have hvalue := congrArg Numeral.value hsize
  rw [Numeral.value_toDigits, Numeral.value_toDigits] at hvalue
  exact ⟨hvalue, List.map_injective_iff.2 Line.text_injective hmap⟩

theorem empty_not_mem_mainLines (dataSize : Nat) (lines : List Line) : "" ∉ mainLines dataSize lines := by
  have htext : ¬∃ line ∈ lines, line.text = "" := fun ⟨line, _, h⟩ => line.text_ne_empty h
  simp [mainLines, htext]

def headerBlocks : List (List String) :=
  [["#include <stdio.h>", "#include <stdlib.h>"], ["unsigned char *d0;"],
    ["static unsigned char read_byte(void) \x7b", "    int c = getchar();", "    return c == EOF ? 0 : (unsigned char)c;", "\x7d"]]

theorem headerLines_eq : headerLines = headerBlocks.flatMap (· ++ [""]) := rfl

namespace Listing
variable {listing other : Listing}

/-- The blocks of the text that end at an empty line. -/
def blocks (listing : Listing) : List (List String) :=
  headerBlocks ++ (if listing.names.isEmpty then [] else [listing.names.map declaration]) ++ listing.routines.map routineBlock

theorem sheet_eq_blocks (listing : Listing) :
    listing.sheet = listing.blocks.flatMap (· ++ [""]) ++ mainLines listing.dataSize listing.main := by
  have hdefinitions : listing.definitions =
      (listing.routines.map routineBlock).flatMap (· ++ [""]) ++ mainLines listing.dataSize listing.main := by
    rw [definitions, List.flatMap_map]
    refine congrArg (· ++ _) (List.flatMap_congr fun routine _ => ?_)
    simp [definitionLines, routineBlock]
  have hdeclarations : listing.names.map declaration ++ (if listing.names.isEmpty then [] else [""]) =
      (if listing.names.isEmpty then [] else [listing.names.map declaration]).flatMap (· ++ [""]) := by
    cases listing.names with
    | nil => rfl
    | cons name names => simp
  rw [sheet, preamble, hdefinitions, blocks, List.append_assoc headerLines, hdeclarations, headerLines_eq,
    List.flatMap_append, List.flatMap_append, List.append_assoc, List.append_assoc, List.append_assoc]

theorem empty_not_mem_of_mem_blocks (listing : Listing) : ∀ block ∈ listing.blocks, "" ∉ block := by
  have hheader : ∀ block ∈ headerBlocks, "" ∉ block := by decide
  have hnames : "" ∉ listing.names.map declaration := by simp [declaration]
  refine List.forall_mem_append.2 ⟨List.forall_mem_append.2 ⟨hheader, ?_⟩, List.forall_mem_map.2 fun routine _ => ?_⟩
  · split
    · exact List.forall_mem_nil _
    · exact List.forall_mem_singleton.2 hnames
  · have htext : ∀ line ∈ routine.2, line.text ≠ "" := fun line _ => line.text_ne_empty
    simpa [routineBlock] using htext

/-- The routines are known from the blocks: there are prototypes if there are any routines at all. -/
theorem routines_eq_of_blocks_eq {listing other : Listing} (h : listing.blocks = other.blocks) :
    listing.routines = other.routines := by
  rw [blocks, blocks, List.append_assoc, List.append_assoc] at h
  have htail := List.append_cancel_left h
  unfold names at htail
  cases hlisting : listing.routines with
  | nil =>
    cases hother : other.routines with
    | nil => rfl
    | cons routine routines => simp [hlisting, hother] at htail
  | cons routine routines =>
    cases hother : other.routines with
    | nil => simp [hlisting, hother] at htail
    | cons next rest =>
      rw [hlisting, hother] at htail
      exact List.map_injective_iff.2 routineBlock_injective (List.append_inj htail rfl).2

/-- The routines and all that is called have names. -/
structure Named (listing : Listing) : Prop where
  names : ∀ name ∈ listing.names, IsName name
  calls : ∀ lines ∈ listing.main :: listing.routines.map Prod.snd, ∀ line ∈ lines, ∀ name argument,
    line.statement = .call name argument → IsName name

theorem feed_not_mem_of_mem_sheet (h : listing.Named) : ∀ line ∈ listing.sheet, '\n' ∉ line.toList := by
  have hfixed : ∀ line ∈ fixedLines, '\n' ∉ line.toList := by decide +kernel
  refine forall_mem_sheet hfixed (fun name hname => ?_) ?_ fun lines hlines line hline => ?_
  · have hname := feed_not_mem_name (h.names name hname)
    exact ⟨not_mem_append (not_mem_append (by decide) (not_mem_append (by decide) hname)) (by decide),
      not_mem_append (not_mem_append (by decide) (not_mem_append (by decide) hname)) (by decide)⟩
  · have hsize : '\n' ∉ (toString listing.dataSize).toList := fun hmem => by
      rw [Nat.toString_eq_repr, Nat.repr_eq_ofList_toDigits, String.toList_ofList] at hmem
      cases (Numeral.isDigits_toDigits listing.dataSize).2 _ hmem
    exact not_mem_append (not_mem_append (by decide) hsize) (by decide)
  · exact Line.feed_not_mem_text (h.calls lines hlines line hline)

/-- A listing is known from its text. -/
theorem eq_of_text_eq (hlisting : listing.Named) (hother : other.Named) (h : listing.text = other.text) : listing = other := by
  rw [text_eq_written, text_eq_written] at h
  have hsheet := eq_of_written_eq (feed_not_mem_of_mem_sheet hlisting) (feed_not_mem_of_mem_sheet hother) h
  rw [sheet_eq_blocks, sheet_eq_blocks] at hsheet
  obtain ⟨hblocks, hmain⟩ := eq_of_flatMap_concat_eq listing.empty_not_mem_of_mem_blocks (empty_not_mem_mainLines _ _)
    other.empty_not_mem_of_mem_blocks (empty_not_mem_mainLines _ _) hsheet
  obtain ⟨hsize, hlines⟩ := mainLines_inj hmain
  have hroutines := routines_eq_of_blocks_eq hblocks
  cases listing
  cases other
  subst hsize hlines hroutines
  rfl

theorem named_of_ofProgram {limits : Limits} {program : Program} (hnames : ∀ name ∈ program.applications.map Prod.fst, IsName name)
    (h : Listing.ofProgram limits program = .ok listing) : listing.Named where
  names := by
    have heq : listing.names = program.applications.map Prod.fst := names_of_routinesOf (listing_eq_ok_iff.1 h).1
    rwa [heq]
  calls lines hlines line hline name argument hcall := by
    obtain ⟨inApplication, body, hbody⟩ := exists_body_of_listing h hlines
    exact hnames name (Program.mem_names_of_isApplication (calls_of_linesOf hbody line hline name argument hcall))

end Listing

/-- Programs of one text have one listing, and there is no other for the text. -/
theorem listing_eq_of_ofProgram_eq {limits other : Limits} {program next : Program} {text : String}
    (hprogram : ∀ name ∈ program.applications.map Prod.fst, IsName name)
    (hnext : ∀ name ∈ next.applications.map Prod.fst, IsName name)
    (h : ofProgram limits program = .ok text) (hother : ofProgram other next = .ok text) :
    Listing.ofProgram limits program = Listing.ofProgram other next := by
  obtain ⟨listing, hlisting, rfl⟩ := exists_listing_of_ofProgram h
  obtain ⟨last, hlast, htext⟩ := exists_listing_of_ofProgram hother
  rw [hlisting, hlast, Listing.eq_of_text_eq (Listing.named_of_ofProgram hprogram hlisting) (Listing.named_of_ofProgram hnext hlast) htext.symm]

end Bracketry.CProgram
