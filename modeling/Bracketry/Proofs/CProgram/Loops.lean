import Bracketry.Proofs.CProgram.Listing

/-!
# Loops and their lines

The lines of a block show where its loops begin and end, and how deep each of them stands.

* `Statement.letter` : the first letter of a line, which tells the lines that make up a loop from all others;
* `openingLines`, `closingLines` : how many lines open a block and how many close one;
* `Code.tests`, `Code.loops`, `Code.Piece` : the tests that stand in a block, and code in which every loop has one;
* `Code.turn` : the block of a conditional;
* `Code.count_lines`, `Code.depth_of_lines_eq` : the lines that open and close blocks, and the depths of all lines.
-/

namespace Bracketry.CProgram

/-! ## Lines that open and close blocks -/

/-- The first letter of a statement, which tells the lines that make up a loop from one another and from all others. -/
def Statement.letter : Statement → Char
  | .loop => 'w'
  | .leaveUnless _ => 'i'
  | .close => '\x7d'
  | .put _ => 'p'
  | .call _ _ => 'a'
  | _ => 'd'

theorem Statement.head?_text (s : Statement) : s.text.toList.head? = some s.letter := by
  cases s <;> simp [text, letter, Expr.text, routineName, memoryName, toString]

theorem Statement.letter_eq_of_text {s other : Statement} (h : s.text = other.text) : s.letter = other.letter := by
  have hhead := congrArg (fun text => text.toList.head?) h
  simpa only [head?_text, Option.some.injEq] using hhead

theorem Statement.text_eq_loop_iff {s : Statement} : s.text = loop.text ↔ s = loop := by
  refine ⟨fun h => ?_, congrArg _⟩
  have hletter := letter_eq_of_text h
  cases s <;> first | rfl | simp [letter] at hletter

theorem Statement.text_eq_close_iff {s : Statement} : s.text = close.text ↔ s = close := by
  refine ⟨fun h => ?_, congrArg _⟩
  have hletter := letter_eq_of_text h
  cases s <;> first | rfl | simp [letter] at hletter

def openingLines (lines : List Line) : Nat := (lines.map fun line => line.statement.text).count Statement.loop.text

def closingLines (lines : List Line) : Nat := (lines.map fun line => line.statement.text).count Statement.close.text

section
variable {depth : Nat} {lines after : List Line} {s : Statement}

theorem openingLines_append : openingLines (lines ++ after) = openingLines lines + openingLines after := by
  rw [openingLines, List.map_append, List.count_append]
  rfl

theorem closingLines_append : closingLines (lines ++ after) = closingLines lines + closingLines after := by
  rw [closingLines, List.map_append, List.count_append]
  rfl

theorem openingLines_loop : openingLines (⟨depth, .loop⟩ :: lines) = openingLines lines + 1 := List.count_cons_self

theorem closingLines_close : closingLines (⟨depth, .close⟩ :: lines) = closingLines lines + 1 := List.count_cons_self

theorem openingLines_of_ne (h : s ≠ .loop) : openingLines (⟨depth, s⟩ :: lines) = openingLines lines :=
  List.count_cons_of_ne fun htext => h (Statement.text_eq_loop_iff.1 htext)

theorem closingLines_of_ne (h : s ≠ .close) : closingLines (⟨depth, s⟩ :: lines) = closingLines lines :=
  List.count_cons_of_ne fun htext => h (Statement.text_eq_close_iff.1 htext)

theorem Statement.ne_of_isPlain (plain : s.isPlain = true) : s ≠ .loop ∧ s ≠ .close := by
  constructor
  · rintro rfl
    cases plain
  · rintro rfl
    cases plain

end

/-! ## Tests in blocks -/

/-- The line that leaves a loop. -/
def Statement.isTest : Statement → Bool
  | .leaveUnless _ => true
  | _ => false

namespace Code

/-- How many tests stand in the block itself, not in the blocks in it. -/
def tests : Code → Nat
  | done => 0
  | statement s _ rest => s.isTest.toNat + rest.tests
  | loop _ rest => rest.tests

/-- How many loops there are in the block, at any depth. -/
def loops : Code → Nat
  | done => 0
  | statement _ _ rest => rest.loops
  | loop body rest => body.loops + 1 + rest.loops

def Tested : Code → Prop
  | done => True
  | statement _ _ rest => rest.Tested
  | loop body rest => body.tests = 1 ∧ body.Tested ∧ rest.Tested

/-- A part of a block without a test, but with one for each of its loops. -/
structure Piece (loops : Nat) (code : Code) : Prop where
  tests : code.tests = 0
  tested : code.Tested
  loops : code.loops = loops

theorem tests_append (code after : Code) : (code.append after).tests = code.tests + after.tests := by
  induction code with
  | done => rw [append, tests, Nat.zero_add]
  | statement s plain rest ih => rw [append, tests, tests, ih, Nat.add_assoc]
  | loop body rest _ ih => exact ih

theorem loops_append (code after : Code) : (code.append after).loops = code.loops + after.loops := by
  induction code with
  | done => rw [append, loops, Nat.zero_add]
  | statement s plain rest ih => exact ih
  | loop body rest _ ih => rw [append, loops, loops, ih, Nat.add_assoc (body.loops + 1)]

theorem tested_append {code after : Code} (h : code.Tested) (h' : after.Tested) : (code.append after).Tested := by
  induction code with
  | done => exact h'
  | statement s plain rest ih => exact ih h
  | loop body rest _ ih => exact ⟨h.1, h.2.1, ih h.2.2⟩

theorem piece_done : Piece 0 done := ⟨rfl, trivial, rfl⟩

theorem Piece.append {m n : Nat} {code after : Code} (h : code.Piece m) (h' : after.Piece n) :
    (code.append after).Piece (m + n) where
  tests := by rw [tests_append, h.tests, h'.tests]
  tested := tested_append h.tested h'.tested
  loops := by rw [loops_append, h.loops, h'.loops]

theorem isPlain_leaveUnless (address : Expr) : (Statement.leaveUnless address).isPlain = true := rfl

/-- The block of a conditional: what its accessor writes, its test, and what its other items write. -/
def turn (head : Code) (address : Expr) (body : Code) : Code := head.append (.statement (.leaveUnless address) (isPlain_leaveUnless address) body)

theorem append_turn (code head : Code) (address : Expr) (body : Code) :
    code.append (turn head address body) = turn (code.append head) address body := by
  induction code with
  | done => rfl
  | statement s plain rest ih => rw [append, ih]; rfl
  | loop inner rest _ ih => rw [append, ih]; rfl

theorem piece_loop {m n : Nat} {head body : Code} (hhead : head.Piece m) (address : Expr) (hbody : body.Piece n) :
    (loop (turn head address body) done).Piece (m + n + 1) where
  tests := rfl
  tested := by
    have htests : (turn head address body).tests = 0 + (1 + 0) := by
      rw [turn, tests_append, hhead.tests, ← hbody.tests]
      rfl
    exact ⟨htests, tested_append hhead.tested hbody.tested, trivial⟩
  loops := by
    have hloops : (turn head address body).loops = m + n := by
      rw [turn, loops_append, hhead.loops, ← hbody.loops]
      rfl
    rw [loops, hloops]
    rfl

/-! ## The lines of a block -/

/-- Every loop has a line that opens it and a line that closes it. -/
theorem count_lines (code : Code) (depth : Nat) :
    openingLines (code.lines depth) = code.loops ∧ closingLines (code.lines depth) = code.loops := by
  induction code generalizing depth with
  | done => exact ⟨rfl, rfl⟩
  | statement s plain rest ih =>
    obtain ⟨hloop, hclose⟩ := Statement.ne_of_isPlain plain
    rw [lines, openingLines_of_ne hloop, closingLines_of_ne hclose]
    exact ih depth
  | loop body rest ihBody ihRest =>
    obtain ⟨hbodyOpening, hbodyClosing⟩ := ihBody (depth + 1)
    obtain ⟨hrestOpening, hrestClosing⟩ := ihRest depth
    rw [lines, openingLines_loop, closingLines_of_ne (by decide), openingLines_append, closingLines_append,
      openingLines_of_ne (by decide), closingLines_close, hbodyOpening, hbodyClosing, hrestOpening, hrestClosing, loops]
    omega

theorem le_depth_of_mem {code : Code} {depth : Nat} {line : Line} (h : line ∈ code.lines depth) : depth ≤ line.depth := by
  induction code generalizing depth with
  | done => cases h
  | statement s plain rest ih =>
    rcases List.mem_cons.1 h with rfl | hrest
    · exact Nat.le_refl depth
    · exact ih hrest
  | loop body rest ihBody ihRest =>
    rcases List.mem_cons.1 h with rfl | htail
    · exact Nat.le_refl depth
    · rcases List.mem_append.1 htail with hbody | hrest
      · exact Nat.le_of_succ_le (ihBody hbody)
      · rcases List.mem_cons.1 hrest with rfl | hrest
        · exact Nat.le_refl depth
        · exact ihRest hrest

/-- A line is as deep as there are blocks open around it; the line that closes a block stands outside of it. -/
theorem depth_of_lines_eq {code : Code} {depth : Nat} {before after : List Line} {line : Line}
    (h : code.lines depth = before ++ line :: after) :
    line.depth + closingLines (before ++ [line]) = depth + openingLines before := by
  induction code generalizing depth before after with
  | done => cases before <;> cases h
  | statement s plain rest ih =>
    obtain ⟨hloop, hclose⟩ := Statement.ne_of_isPlain plain
    cases before with
    | nil =>
      obtain ⟨rfl, -⟩ := List.cons.inj h
      rw [List.nil_append, closingLines_of_ne hclose]
      rfl
    | cons first before =>
      obtain ⟨rfl, hrest⟩ := List.cons.inj h
      rw [List.cons_append, closingLines_of_ne hclose, openingLines_of_ne hloop]
      exact ih hrest
  | loop body rest ihBody ihRest =>
    cases before with
    | nil =>
      obtain ⟨rfl, -⟩ := List.cons.inj h
      rw [List.nil_append, closingLines_of_ne (by decide)]
      rfl
    | cons first before =>
      obtain ⟨rfl, htail⟩ := List.cons.inj h
      obtain ⟨hopening, hclosing⟩ := body.count_lines (depth + 1)
      rw [List.cons_append, closingLines_of_ne (by decide), openingLines_loop]
      -- the line that closes the loop
      have hlast : depth + closingLines (body.lines (depth + 1) ++ [⟨depth, .close⟩]) =
          depth + (openingLines (body.lines (depth + 1)) + 1) := by
        rw [closingLines_append, closingLines_close, hopening, hclosing]
        rfl
      rcases List.append_eq_append_iff.1 htail with ⟨more, rfl, hmore⟩ | ⟨more, hbody, hmore⟩
      · cases more with
        | nil =>
          obtain ⟨rfl, -⟩ := List.cons.inj hmore
          rwa [List.append_nil]
        | cons first more =>
          obtain ⟨rfl, hrest⟩ := List.cons.inj hmore
          have hline := ihRest hrest
          rw [List.append_assoc, closingLines_append, openingLines_append, List.cons_append, closingLines_close,
            openingLines_of_ne (by decide), hopening, hclosing]
          omega
      · cases more with
        | nil =>
          obtain ⟨rfl, -⟩ := List.cons.inj hmore
          rw [List.append_nil] at hbody
          rwa [hbody] at hlast
        | cons first more =>
          obtain ⟨rfl, -⟩ := List.cons.inj hmore
          have hline := ihBody hbody
          omega

end Code

end Bracketry.CProgram
