import Bracketry.CProgram.Unit
import Bracketry.Proofs.Checks
import Mathlib.Data.List.Forall2

/-!
# The C program before it is text

The generated text is a layout of lines, and the lines of a routine are the blocks of loops and the statements in them.

* `Code`, `Code.lines`, `Code.ofLines` : statements and loops, the lines that they are written in, and the way back
  (`ofLines_lines`);
* `Listing`, `Listing.text` : the routines of a program by their lines, and the text they are laid out to;
* `Listing.ofProgram`, `ofProgram_eq_map_text` : the listing of a program, and that the generated text is its text;
* `lookup_of_listing` : the routine of an application is what its body was written as.
-/

namespace Bracketry.CProgram

/-! ## Blocks -/

/-- A statement that neither opens nor closes the block of a loop. -/
def Statement.isPlain : Statement → Bool
  | .loop | .close => false
  | _ => true

/-- What stands in a block. -/
inductive Code where
  | done
  | statement (statement : Statement) (plain : statement.isPlain = true) (rest : Code)
  | loop (body rest : Code)
deriving DecidableEq

namespace Code

def lines (depth : Nat) : Code → List Line
  | done => []
  | statement s _ rest => ⟨depth, s⟩ :: rest.lines depth
  | loop body rest => ⟨depth, .loop⟩ :: (body.lines (depth + 1) ++ ⟨depth, .close⟩ :: rest.lines depth)

def append : Code → Code → Code
  | done, after => after
  | statement s plain rest, after => statement s plain (rest.append after)
  | loop body rest, after => loop body (rest.append after)

theorem append_done (code : Code) : code.append done = code := by
  induction code with
  | done => rfl
  | statement s plain rest ih => rw [append, ih]
  | loop body rest _ ih => rw [append, ih]

theorem lines_append (depth : Nat) (code after : Code) :
    (code.append after).lines depth = code.lines depth ++ after.lines depth := by
  induction code with
  | done => rfl
  | statement s plain rest ih => rw [append, lines, lines, ih, List.cons_append]
  | loop body rest _ ih => rw [append, lines, lines, ih, List.cons_append, List.append_assoc, List.cons_append]

/-- Puts a line in front of the blocks read so far: the innermost open one, then those around it. -/
def grow (line : Line) : List Code → List Code
  | [] => []
  | code :: codes => match line.statement with
    | .close => done :: code :: codes
    | .loop => match codes with
      | [] => [code]
      | rest :: codes => loop code rest :: codes
    | s => if plain : s.isPlain = true then statement s plain code :: codes else code :: codes

/-- The block of some lines, read from their end. -/
def ofLines (lines : List Line) : Code := (lines.foldr grow [done]).headD done

theorem grow_of_isPlain {s : Statement} (plain : s.isPlain = true) (depth : Nat) (code : Code) (codes : List Code) :
    grow ⟨depth, s⟩ (code :: codes) = statement s plain code :: codes := by
  cases s with
  | loop => cases plain
  | close => cases plain
  | _ => rfl

theorem foldr_grow_lines (depth : Nat) (code after : Code) (codes : List Code) (lines : List Line)
    (h : lines.foldr grow [done] = after :: codes) :
    (code.lines depth ++ lines).foldr grow [done] = code.append after :: codes := by
  induction code generalizing depth after codes lines with
  | done => exact h
  | statement s plain rest ih =>
    rw [Code.lines, List.cons_append, List.foldr_cons, ih depth after codes lines h, grow_of_isPlain plain]
    rfl
  | loop body rest ihBody ihRest =>
    have hrest : (⟨depth, .close⟩ :: (rest.lines depth ++ lines)).foldr grow [done] =
        done :: rest.append after :: codes := by
      rw [List.foldr_cons, ihRest depth after codes lines h]
      rfl
    rw [Code.lines, List.cons_append, List.append_assoc, List.cons_append, List.foldr_cons,
      ihBody (depth + 1) done (rest.append after :: codes) _ hrest, append_done]
    rfl

/-- A block is read back from its lines. -/
theorem ofLines_lines (depth : Nat) (code : Code) : ofLines (code.lines depth) = code := by
  have h := foldr_grow_lines depth code done [] [] rfl
  rw [List.append_nil, append_done] at h
  rw [ofLines, h]
  rfl

end Code

/-! ## Listings -/

/-- The routines of a program by their lines. -/
structure Listing where
  /-- The number of cells that are allocated. -/
  dataSize : Nat
  routines : List (String × List Line)
  /-- The routine of the entry point, without what allocates and releases the cells. -/
  main : List Line
deriving DecidableEq, Repr

namespace Listing

def text (listing : Listing) : String :=
  let names := listing.routines.map Prod.fst
  let prototypes := String.join (names.map prototype) ++ if names.isEmpty then "" else "\n"
  let routines := listing.routines.map fun (name, lines) => routine name lines
  header ++ prototypes ++ String.join routines ++ mainRoutine { dataSize := listing.dataSize } listing.main

/-- The named lines of named bodies, if all of them can be written in C. -/
def routinesOf (limits : Limits) (program : Program) :
    List (String × List Token) → Except Stop (List (String × List Line))
  | [] => .ok []
  | (name, body) :: bodies => do
    let lines ← linesOf limits program true body
    return (name, lines) :: (← routinesOf limits program bodies)

def ofProgram (limits : Limits) (program : Program) : Except Stop Listing := do
  let routines ← routinesOf limits program program.applications
  return { dataSize := limits.dataSize, routines, main := ← linesOf limits program false program.entry }

end Listing

section
variable {limits : Limits} {program : Program}

theorem forall₂_of_routinesOf {bodies : List (String × List Token)} {routines : List (String × List Line)}
    (h : Listing.routinesOf limits program bodies = .ok routines) :
    List.Forall₂ (fun named routine => routine.1 = named.1 ∧ linesOf limits program true named.2 = .ok routine.2)
      bodies routines := by
  induction bodies generalizing routines with
  | nil =>
    obtain rfl := Except.ok.inj h
    exact .nil
  | cons named bodies ih =>
    obtain ⟨lines, hlines, h⟩ := bind_eq_ok_iff.1 h
    obtain ⟨rest, hrest, h⟩ := bind_eq_ok_iff.1 h
    obtain rfl := Except.ok.inj h
    exact .cons ⟨rfl, hlines⟩ (ih hrest)

theorem names_of_routinesOf {bodies : List (String × List Token)} {routines : List (String × List Line)}
    (h : Listing.routinesOf limits program bodies = .ok routines) : routines.map Prod.fst = bodies.map Prod.fst := by
  rw [← List.forall₂_eq_eq_eq, List.forall₂_map_left_iff, List.forall₂_map_right_iff]
  exact ((forall₂_of_routinesOf h).imp fun _ _ hnamed => hnamed.1).flip

theorem mapM_routine_eq (bodies : List (String × List Token)) :
    (bodies.mapM fun (name, body) => return routine name (← linesOf limits program true body)) =
      (Listing.routinesOf limits program bodies).map (List.map fun (name, lines) => routine name lines) := by
  induction bodies with
  | nil => rfl
  | cons named bodies ih =>
    obtain ⟨name, body⟩ := named
    rw [List.mapM_cons, ih, Listing.routinesOf]
    dsimp only
    cases linesOf limits program true body with
    | error stop => rfl
    | ok lines => cases Listing.routinesOf limits program bodies <;> rfl

/-- The text of a program is the text of its listing. -/
theorem ofProgram_eq_map_text : ofProgram limits program = (Listing.ofProgram limits program).map Listing.text := by
  unfold ofProgram Listing.ofProgram
  rw [mapM_routine_eq]
  cases hroutines : Listing.routinesOf limits program program.applications with
  | error stop => rfl
  | ok routines =>
    have hnames := names_of_routinesOf hroutines
    cases linesOf limits program false program.entry with
    | error stop => rfl
    | ok main =>
      change Except.ok _ = Except.ok (Listing.text ⟨limits.dataSize, routines, main⟩)
      rw [Listing.text, hnames]
      rfl

theorem exists_listing_of_ofProgram {text : String} (h : ofProgram limits program = .ok text) :
    ∃ listing, Listing.ofProgram limits program = .ok listing ∧ listing.text = text := by
  rw [ofProgram_eq_map_text] at h
  cases hlisting : Listing.ofProgram limits program with
  | error stop => rw [hlisting] at h; cases h
  | ok listing =>
    rw [hlisting] at h
    exact ⟨listing, rfl, Except.ok.inj h⟩

theorem lookup_of_routinesOf {bodies : List (String × List Token)} {routines : List (String × List Line)}
    (h : Listing.routinesOf limits program bodies = .ok routines) (name : String) :
    (bodies.lookup name = none ∧ routines.lookup name = none) ∨
      ∃ body lines, bodies.lookup name = some body ∧ linesOf limits program true body = .ok lines ∧
        routines.lookup name = some lines := by
  have hbodies := forall₂_of_routinesOf h
  clear h
  induction hbodies with
  | nil => exact .inl ⟨rfl, rfl⟩
  | @cons named routine _ _ hnamed _ ih =>
    obtain ⟨other, body⟩ := named
    obtain ⟨_, lines⟩ := routine
    obtain ⟨rfl, hlines⟩ := hnamed
    rw [List.lookup_cons, List.lookup_cons]
    cases name == _ with
    | true => exact .inr ⟨body, lines, rfl, hlines, rfl⟩
    | false => exact ih

/-- What a program has a listing for, and which. -/
theorem listing_eq_ok_iff {listing : Listing} :
    Listing.ofProgram limits program = .ok listing ↔
      Listing.routinesOf limits program program.applications = .ok listing.routines ∧
        linesOf limits program false program.entry = .ok listing.main ∧ listing.dataSize = limits.dataSize := by
  unfold Listing.ofProgram
  simp only [bind_eq_ok_iff]
  constructor
  · rintro ⟨routines, hroutines, main, hmain, heq⟩
    obtain rfl := Except.ok.inj heq
    exact ⟨hroutines, hmain, rfl⟩
  · rintro ⟨hroutines, hmain, hsize⟩
    refine ⟨_, hroutines, _, hmain, ?_⟩
    rw [← hsize]
    rfl

/-- An application is written as the routine of its name, and other names are not routines. -/
theorem lookup_of_listing {listing : Listing} (h : Listing.ofProgram limits program = .ok listing) (name : String) :
    (program.applications.lookup name = none ∧ listing.routines.lookup name = none) ∨
      ∃ body lines, program.applications.lookup name = some body ∧ linesOf limits program true body = .ok lines ∧
        listing.routines.lookup name = some lines :=
  lookup_of_routinesOf (listing_eq_ok_iff.1 h).1 name

theorem main_of_listing {listing : Listing} (h : Listing.ofProgram limits program = .ok listing) :
    listing.dataSize = limits.dataSize ∧ linesOf limits program false program.entry = .ok listing.main :=
  (listing_eq_ok_iff.1 h).2.symm

end

end Bracketry.CProgram
