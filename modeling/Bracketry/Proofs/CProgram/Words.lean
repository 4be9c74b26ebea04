import Bracketry.CProgram.Unit
import Bracketry.Proofs.Program.Names
import Bracketry.Proofs.Token.Spelling

/-!
# The words of a C program

What a generated text says in letters, digits and underscores.

* `identifiers` : the longest runs of such characters; `identifiers_append` cuts a text between two of them;
* `languageWords`, `localNames`, `libraryNames`, `ownNames` : the words that stand in generated texts;
* `IsKnown`, `Spelled` : these words, the names of routines and numbers; a text that has no others;
* `spelled_line` : a line is such a text, whatever its depth, if what it calls is a routine.
-/

namespace Bracketry.CProgram

/-! ## Words -/

def isIdentifierChar (c : Char) : Bool := c.isAlphanum || c == '_'

/-- The longest runs of such characters. -/
def runs (text : List Char) : List (List Char) :=
  (text.splitOnP fun c => !isIdentifierChar c).filter fun word => !word.isEmpty

/-- The words of a text, in order. -/
def identifiers (text : String) : List String := (runs text.toList).map String.ofList

def beginsApart (text : String) : Bool := text.toList.head?.all fun c => !isIdentifierChar c

def endsApart (text : String) : Bool := text.toList.getLast?.all fun c => !isIdentifierChar c

/-- No word reaches from one text into the other. -/
def Parted (text after : String) : Prop := endsApart text = true ∨ beginsApart after = true

theorem beginsApart_append {text after : String} (hne : text.toList ≠ []) (h : beginsApart text = true) :
    beginsApart (text ++ after) = true := by
  obtain ⟨c, rest, hchars⟩ := List.exists_cons_of_ne_nil hne
  rw [beginsApart, hchars] at h
  rw [beginsApart, String.toList_append, hchars]
  exact h

theorem runs_cut {before after : List Char} {c : Char} (hc : isIdentifierChar c = false) :
    runs (before ++ c :: after) = runs before ++ runs after := by
  unfold runs
  rw [List.splitOnP_append_cons before after (by rw [hc]; rfl), List.filter_append]

theorem identifiers_append {text after : String} (h : Parted text after) :
    identifiers (text ++ after) = identifiers text ++ identifiers after := by
  unfold identifiers
  rw [← List.map_append, String.toList_append]
  refine congrArg _ ?_
  rcases h with hlast | hhead
  · rcases List.eq_nil_or_concat text.toList with hnil | ⟨before, c, hconcat⟩
    · rw [hnil]
      rfl
    · have hc : isIdentifierChar c = false := by simpa [endsApart, hconcat] using hlast
      rw [hconcat, List.concat_eq_append]
      rw [List.append_assoc, List.singleton_append, runs_cut hc, runs_cut hc]
      exact congrArg (· ++ runs after.toList) (List.append_nil (runs before)).symm
  · cases hafter : after.toList with
    | nil => rw [List.append_nil, show runs [] = [] from rfl, List.append_nil]
    | cons c rest =>
      have hc : isIdentifierChar c = false := by simpa [beginsApart, hafter] using hhead
      rw [runs_cut hc, show runs (c :: rest) = runs ([] ++ c :: rest) from rfl, runs_cut hc]
      rfl

theorem identifiers_eq_singleton {text : String} (hne : text ≠ "") (h : ∀ c ∈ text.toList, isIdentifierChar c = true) :
    identifiers text = [text] := by
  have hchars : text.toList.isEmpty = false := by
    rw [List.isEmpty_eq_false_iff]
    exact fun hnil => hne (String.toList_eq_nil_iff.1 hnil)
  unfold identifiers runs
  rw [List.splitOnP_eq_singleton fun c hc => by rw [h c hc]; rfl, List.filter_cons_of_pos (by rw [hchars]; rfl)]
  exact congrArg (fun word => [word]) String.ofList_toList

/-! ## The words of generated texts -/

/-- The keywords of C that are used, and the words of the directives. -/
def languageWords : List String :=
  ["break", "char", "if", "int", "return", "static", "unsigned", "void", "while", "include", "stdio", "stdlib", "h"]

def localNames : List String := ["c", Token.parameterText]

def libraryNames : List String := ["EOF", "calloc", "free", "getchar", "putchar"]

/-- What every program declares at the outside. -/
def ownNames : List String := [memoryName, readerName, entryName]

def IsNumeral (word : String) : Prop := ∃ c ∈ word.toList.head?, c.isDigit = true

/-- A word that may stand in a generated text with routines of these names. -/
def IsKnown (names : List String) (word : String) : Prop :=
  word ∈ languageWords ++ localNames ++ libraryNames ++ ownNames ∨ word ∈ names.map routineName ∨ IsNumeral word

def Spelled (names : List String) (text : String) : Prop := ∀ word ∈ identifiers text, IsKnown names word

variable {names : List String} {text after : String}

theorem spelled_append (hparted : Parted text after) (htext : Spelled names text) (hafter : Spelled names after) :
    Spelled names (text ++ after) := by
  intro word hword
  rw [identifiers_append hparted] at hword
  exact (List.mem_append.1 hword).elim (htext word) (hafter word)

/-- The text has no words but numbers and those that all programs may have. -/
def isBoilerplate (text : String) : Bool :=
  (identifiers text).all fun word =>
    (languageWords ++ localNames ++ libraryNames ++ ownNames).contains word || word.toList.head?.any Char.isDigit

theorem spelled_of_isBoilerplate (h : isBoilerplate text = true) : Spelled names text := by
  intro word hword
  have hone := List.all_eq_true.1 h word hword
  rw [Bool.or_eq_true, List.contains_iff_mem, Option.any_eq_true] at hone
  exact hone.imp id .inr

theorem spelled_numeral {digits : List Char} (hne : digits ≠ []) (hdigits : ∀ c ∈ digits, c.isDigit = true) :
    Spelled names (String.ofList digits) := by
  intro word hword
  have hchars : ∀ c ∈ (String.ofList digits).toList, isIdentifierChar c = true := by
    intro c hc
    rw [String.toList_ofList] at hc
    simp [isIdentifierChar, Char.isAlphanum, hdigits c hc]
  rw [identifiers_eq_singleton (by simpa using hne) hchars] at hword
  obtain rfl := List.mem_singleton.1 hword
  obtain ⟨c, rest, rfl⟩ := List.exists_cons_of_ne_nil hne
  exact .inr (.inr ⟨c, by rw [String.toList_ofList]; rfl, hdigits c List.mem_cons_self⟩)

theorem spelled_toDigits (n : Nat) : Spelled names (String.ofList (Nat.toDigits 10 n)) :=
  spelled_numeral Nat.toDigits_ne_nil fun _ => Nat.isDigit_of_mem_toDigits (by decide) (by decide)

theorem spelled_nat (n : Nat) : Spelled names (toString n) := by
  rw [Nat.toString_eq_repr, Nat.repr_eq_ofList_toDigits]
  exact spelled_toDigits n

theorem spelled_int (value : Int) : Spelled names (toString value) := by
  rw [Int.toString_eq_repr, Int.repr_eq_if]
  split
  · rw [Nat.repr_eq_ofList_toDigits]
    exact spelled_toDigits _
  · rw [Nat.repr_eq_ofList_toDigits]
    exact spelled_append (.inl (by decide)) (spelled_of_isBoilerplate (by decide)) (spelled_toDigits _)

theorem spelled_routineName {name : String} (hname : IsName name) (hmem : name ∈ names) : Spelled names (routineName name) := by
  intro word hword
  have hchars : ∀ c ∈ (routineName name).toList, isIdentifierChar c = true := by
    intro c hc
    rw [routineName, String.toList_append] at hc
    rcases List.mem_append.1 hc with hfront | hrest
    · exact List.all_eq_true.1 (show "a_".toList.all isIdentifierChar = true by decide) c hfront
    · have hc := hname.2 c hrest
      rw [isNameChar, Bool.or_eq_true] at hc
      rcases hc with halpha | hunderscore
      · simp [isIdentifierChar, Char.isAlphanum, halpha]
      · simp [isIdentifierChar, hunderscore]
  rw [identifiers_eq_singleton (by simp [routineName, ← String.toList_eq_nil_iff]) hchars] at hword
  exact .inr (.inl (List.mem_singleton.1 hword ▸ List.mem_map_of_mem hmem))

/-! ## Lines -/

theorem spelled_expr (e : Expr) : Spelled names e.text := by
  induction e with
  | literal value => exact spelled_int value.toInt
  | parameter => exact spelled_of_isBoilerplate (by decide)
  | cell address ih =>
    change Spelled names ("d0" ++ "[" ++ address.text ++ "]")
    have hopened : Spelled names ("d0" ++ "[" ++ address.text) := spelled_append (.inl (by decide)) (spelled_of_isBoilerplate (by decide)) ih
    exact spelled_append (.inr (by decide)) hopened (spelled_of_isBoilerplate (by decide))

/-- An expression between two pieces of text that no word reaches across. -/
theorem spelled_around {front back : String} (e : Expr) (hfront : endsApart front = true) (hback : beginsApart back = true)
    (hf : Spelled names front) (hb : Spelled names back) : Spelled names (front ++ e.text ++ back) :=
  spelled_append (.inr hback) (spelled_append (.inl hfront) hf (spelled_expr e)) hb

theorem spelled_before {front back : String} (e : Expr) (htext : Spelled names text) (hne : front.toList ≠ [])
    (hhead : beginsApart front = true) (hfront : endsApart front = true) (hback : beginsApart back = true)
    (hf : Spelled names front) (hb : Spelled names back) : Spelled names (text ++ front ++ e.text ++ back) := by
  have hassoc : text ++ front ++ e.text ++ back = text ++ (front ++ e.text ++ back) := by simp only [String.append_assoc]
  rw [hassoc]
  refine spelled_append (.inr ?_) htext (spelled_around e hfront hback hf hb)
  rw [String.append_assoc]
  exact beginsApart_append hne hhead

/-- A statement says nothing else, if what it calls is a routine. -/
theorem spelled_statement {s : Statement} (hcall : ∀ name argument, s = .call name argument → IsName name ∧ name ∈ names) :
    Spelled names s.text := by
  cases s with
  | increment address => exact spelled_append (.inr (by decide)) (spelled_expr address.cell) (spelled_of_isBoilerplate (by decide))
  | decrement address => exact spelled_append (.inr (by decide)) (spelled_expr address.cell) (spelled_of_isBoilerplate (by decide))
  | put address =>
    exact spelled_around address.cell (by decide) (by decide) (spelled_of_isBoilerplate (by decide)) (spelled_of_isBoilerplate (by decide))
  | get address =>
    change Spelled names (address.cell.text ++ " = " ++ "read_byte" ++ "();")
    rw [String.append_assoc, String.append_assoc]
    exact spelled_append (.inr (by decide)) (spelled_expr address.cell) (spelled_of_isBoilerplate (by decide))
  | assign address value =>
    exact spelled_before value (spelled_expr address.cell) (by decide) (by decide) (by decide) (by decide)
      (spelled_of_isBoilerplate (by decide)) (spelled_of_isBoilerplate (by decide))
  | call name argument =>
    obtain ⟨hname, hmem⟩ := hcall name argument rfl
    exact spelled_before argument (spelled_routineName hname hmem) (by decide) (by decide) (by decide) (by decide)
      (spelled_of_isBoilerplate (by decide)) (spelled_of_isBoilerplate (by decide))
  | loop => exact spelled_of_isBoilerplate (by decide)
  | leaveUnless address =>
    exact spelled_around address.cell (by decide) (by decide) (spelled_of_isBoilerplate (by decide)) (spelled_of_isBoilerplate (by decide))
  | close => exact spelled_of_isBoilerplate (by decide)

theorem spelled_pushn (n : Nat) (htext : Spelled names text) : Spelled names ("".pushn ' ' n ++ text) := by
  induction n generalizing text with
  | zero =>
    rw [show "".pushn ' ' 0 = "" from rfl, String.empty_append]
    exact htext
  | succ n ih =>
    have hpush : "".pushn ' ' (n + 1) = "".pushn ' ' n ++ " " := by
      rw [← String.toList_inj, String.toList_append]
      exact String.toList_push ' '
    rw [hpush, String.append_assoc]
    exact ih (spelled_append (.inl (by decide)) (spelled_of_isBoilerplate (by decide)) htext)

theorem spelled_line {line : Line}
    (hcall : ∀ name argument, line.statement = .call name argument → IsName name ∧ name ∈ names) : Spelled names line.text :=
  spelled_pushn _ (spelled_statement hcall)

end Bracketry.CProgram
