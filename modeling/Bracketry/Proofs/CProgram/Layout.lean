import Bracketry.Proofs.CProgram.Translatable
import Bracketry.Proofs.CProgram.Words
import Mathlib.Data.List.Nodup

/-!
# The layout of a C program

A generated text has a header, the prototypes, the routines of the applications and the main routine, in this order.

* `Listing.sheet` : the text of a listing line by line; `Listing.text_eq_written` says that it is the text;
* `Generator.CallsOnly`, `calls_of_linesOf` : the lines of a body call applications only;
* `fileScopeNames` : what is declared at the outside; `nodup_fileScopeNames` says that nothing is declared twice;
* `Listing.spelled_text` : the text has no words but known ones;
* `ofProgram_layout` : all of this for the text of a program.
-/

namespace Bracketry.CProgram

/-! ## Lines of text -/

def written (lines : List String) : String := String.join (lines.map fun line => line ++ "\n")

/-- The memory array and the function that reads a byte. -/
def headerLines : List String :=
  ["#include <stdio.h>", "#include <stdlib.h>", "", "unsigned char *d0;", "", "static unsigned char read_byte(void) \x7b",
    "    int c = getchar();", "    return c == EOF ? 0 : (unsigned char)c;", "\x7d", ""]

/-- The line that declares the routine of an application. -/
def declaration (name : String) : String := "void " ++ routineName name ++ "(unsigned int s0);"

def definitionLines (name : String) (lines : List Line) : List String :=
  ("void " ++ routineName name ++ "(unsigned int s0) \x7b") :: lines.map Line.text ++ ["\x7d", ""]

def mainLines (dataSize : Nat) (lines : List Line) : List String :=
  ["int main(void) \x7b", "    d0 = (unsigned char *)calloc(" ++ toString dataSize ++ ", 1);", "    if (!d0) \x7b return 1; \x7d"] ++
    lines.map Line.text ++ ["    free(d0);", "    return 0;", "\x7d"]

namespace Listing

/-- The names of the applications that have routines. -/
def names (listing : Listing) : List String := listing.routines.map Prod.fst

/-- The lines before the first definition of a routine. -/
def preamble (listing : Listing) : List String :=
  headerLines ++ listing.names.map declaration ++ if listing.names.isEmpty then [] else [""]

def definitions (listing : Listing) : List String :=
  listing.routines.flatMap (fun (name, lines) => definitionLines name lines) ++ mainLines listing.dataSize listing.main

def sheet (listing : Listing) : List String := listing.preamble ++ listing.definitions

end Listing

theorem written_append (lines after : List String) : written (lines ++ after) = written lines ++ written after := by
  rw [written, List.map_append, String.join_append]
  rfl

theorem written_flatMap {α : Type} (f : α → List String) (parts : List α) :
    written (parts.flatMap f) = String.join (parts.map fun part => written (f part)) := by
  induction parts with
  | nil => rfl
  | cons part parts ih => rw [List.flatMap_cons, written_append, ih, List.map_cons, String.join_cons]

theorem written_cons (line : String) (lines : List String) : written (line :: lines) = line ++ "\n" ++ written lines := by
  rw [written, List.map_cons, String.join_cons]
  rfl

theorem written_header : written headerLines = header := by decide +kernel

theorem linesText_eq_written (lines : List Line) : linesText lines = written (lines.map Line.text) := by
  rw [linesText, written, List.map_map]
  rfl

theorem signature_eq (name : String) : signature name = "void " ++ routineName name ++ "(unsigned int s0)" := by
  change "void " ++ routineName name ++ "(unsigned int " ++ "s0" ++ ")" = _
  simp [String.append_assoc]

theorem written_declarations (names : List String) : written (names.map declaration) = String.join (names.map prototype) := by
  rw [written, List.map_map]
  refine congrArg String.join (List.map_congr_left fun name _ => ?_)
  simp [declaration, prototype, signature_eq, String.append_assoc]

theorem written_definitionLines (name : String) (lines : List Line) : written (definitionLines name lines) = routine name lines := by
  rw [definitionLines, List.cons_append, written_cons, written_append, ← linesText_eq_written, routine, signature_eq]
  simp [written, String.append_assoc]

theorem written_mainLines (limits : Limits) (lines : List Line) :
    written (mainLines limits.dataSize lines) = mainRoutine limits lines := by
  have hmain : mainRoutine limits lines = "int main(void) \x7b\n" ++
      ("    d0 = (unsigned char *)calloc(" ++ toString limits.dataSize ++ ", 1);\n") ++ "    if (!d0) \x7b return 1; \x7d\n" ++
      linesText lines ++ "    free(d0);\n    return 0;\n\x7d\n" := by rfl
  rw [mainLines, written_append, written_append, ← linesText_eq_written, hmain]
  simp [written, String.append_assoc]

theorem Listing.text_eq_written (listing : Listing) : listing.text = written listing.sheet := by
  have hroutines : written (listing.routines.flatMap fun (name, lines) => definitionLines name lines) =
      String.join (listing.routines.map fun (name, lines) => routine name lines) := by
    rw [written_flatMap]
    exact congrArg String.join (List.map_congr_left fun (name, lines) _ => written_definitionLines name lines)
  have hblank : written (if listing.names.isEmpty then [] else [""]) = if listing.names.isEmpty then "" else "\n" := by
    split <;> rfl
  have htext : listing.text = header ++ (String.join (listing.names.map prototype) ++ if listing.names.isEmpty then "" else "\n") ++
      String.join (listing.routines.map fun (name, lines) => routine name lines) ++
      mainRoutine { dataSize := listing.dataSize } listing.main := rfl
  rw [sheet, preamble, definitions, written_append, written_append, written_append, written_append, hroutines, hblank,
    written_header, written_declarations, htext, ← written_mainLines]
  simp only [String.append_assoc]

/-! ## Calls -/

/-- What the line calls, if it is a call, is an application of the program. -/
def Line.Answered (program : Program) (line : Line) : Prop :=
  ∀ name argument, line.statement = .call name argument → program.isApplication name = true

namespace Generator
variable {limits : Limits} {program : Program} {inApplication : Bool}

def CallsOnly (program : Program) (generator : Generator) : Prop := ∀ line ∈ generator.lines.toList, line.Answered program

abbrev keepingCalls (program : Program) : Relator Generator Generator := .keeping (CallsOnly program)

theorem emit_keepsCalls {statement : Statement}
    (h : ∀ name argument, statement = .call name argument → program.isApplication name = true) :
    (keepingCalls program).Rel Eq (emit statement) (emit statement) := by
  refine Relator.keeping_iff.2 fun ⟨depth, lines⟩ hlines line hline => ?_
  change line ∈ (lines.push ⟨depth, statement⟩).toList at hline
  rw [Array.toList_push] at hline
  rcases List.mem_append.1 hline with hold | hnew
  · exact hlines line hold
  · rw [List.mem_singleton.1 hnew]
    exact h

theorem address_keepsCalls (e : Expr) : (keepingCalls program).Rel Eq (address limits e) (address limits e) := by
  refine Relator.keeping_iff.2 fun generator h => ?_
  cases e with
  | literal value =>
    rw [address]
    cases limits.checkAddress value with
    | ok index => exact h
    | error error => exact h
  | _ => exact h

variable (limits program inApplication) in
theorem backend_keepsCalls :
    (backend limits inApplication).Matches (keepingCalls program) Eq Eq program (backend limits inApplication) program where
  literal _ := Relator.pure _ rfl
  parameter := by
    refine Relator.keeping_iff.2 fun generator h => ?_
    cases inApplication <;> exact h
  resolveAccessor := by
    rintro e _ rfl
    exact address_keepsCalls e
  applyBuiltin := by
    rintro e _ rfl op
    cases op with
    | nop => exact Relator.pure _ rfl
    | _ => exact emit_keepsCalls nofun
  assign := by
    rintro e _ rfl value _ rfl
    exact emit_keepsCalls nofun
  named := by
    rintro name e _ rfl
    change (keepingCalls program).Rel Eq (if program.isApplication name then emit (.call name e) else Action.fault (.unknownToken name))
      (if program.isApplication name then emit (.call name e) else Action.fault (.unknownToken name))
    by_cases hname : program.isApplication name = true
    · rw [if_pos hname]
      refine emit_keepsCalls fun other argument heq => ?_
      obtain ⟨rfl, -⟩ := Statement.call.inj heq
      exact hname
    · rw [if_neg hname]
      exact Relator.abreast_keepsFaults _ (.unknownToken name) _
  resolve := by
    rintro e _ rfl
    exact Relator.pure _ rfl
  enterLoop := Relator.bind_eq _ (emit_keepsCalls nofun) fun _ => Relator.keeping_iff.2 fun _ h => h
  testLoop := by
    rintro e _ rfl
    exact Relator.bind_eq _ (emit_keepsCalls nofun) fun _ => Relator.pure _ rfl
  exitLoop := by
    rintro e _ rfl
    exact Relator.bind_eq _ (Relator.keeping_iff.2 fun _ h => h) fun _ =>
      Relator.bind_eq _ (emit_keepsCalls nofun) fun _ => Relator.pure _ rfl
  describe := by
    rintro e _ rfl
    rfl

end Generator

section
variable {limits : Limits} {program : Program} {inApplication : Bool} {body : List Token} {lines : List Line}

/-- Whatever its brackets, the lines of a body call applications only. -/
theorem calls_of_linesOf (h : linesOf limits program inApplication body = .ok lines) : ∀ line ∈ lines, line.Answered program := by
  obtain ⟨generator, hgenerate, rfl⟩ := exists_generator_of_linesOf h
  have hkeeps := Pass.evaluate_matches (Generator.backend_keepsCalls limits program inApplication) (Relator.abreast_keepsFaults _)
    body.length body
  have hleaves := Relator.keeping_iff.1 hkeeps {} nofun
  rw [show evaluate _ program _ body _ = .ok () generator from hgenerate] at hleaves
  exact hleaves

end

/-! ## Names -/

/-- What is declared at the outside. -/
def fileScopeNames (names : List String) : List String := ownNames ++ names.map routineName

theorem routineName_inj {name other : String} : routineName name = routineName other ↔ name = other := by
  rw [routineName, routineName, ← String.toList_inj, String.toList_append, String.toList_append, List.append_cancel_left_eq,
    String.toList_inj]

/-- The names of routines all begin alike. -/
theorem routineName_ne {word : String} (h : word.toList.take 2 ≠ ['a', '_']) (name : String) : routineName name ≠ word := by
  rintro rfl
  rw [routineName, String.toList_append] at h
  exact h rfl

variable {names : List String}

theorem nodup_fileScopeNames (h : names.Nodup) : (fileScopeNames names).Nodup := by
  have hroutines : (names.map routineName).Nodup := h.map fun _ _ => routineName_inj.1
  refine List.nodup_append.2 ⟨by decide, hroutines, fun word hword other hother => ?_⟩
  obtain ⟨name, -, rfl⟩ := List.mem_map.1 hother
  exact (routineName_ne ((show ∀ word ∈ ownNames, word.toList.take 2 ≠ ['a', '_'] by decide) word hword) name).symm

/-- No name of the outside is a word of the language, a name of the inside or one of the library. -/
theorem not_mem_of_mem_fileScopeNames {word : String} (hword : word ∈ fileScopeNames names) :
    word ∉ languageWords ++ localNames ++ libraryNames := by
  rcases List.mem_append.1 hword with hown | hroutine
  · exact (show ∀ word ∈ ownNames, word ∉ languageWords ++ localNames ++ libraryNames by decide) word hown
  · obtain ⟨name, -, rfl⟩ := List.mem_map.1 hroutine
    intro hmem
    have hother : ∀ word ∈ languageWords ++ localNames ++ libraryNames, word.toList.take 2 ≠ ['a', '_'] := by decide
    exact routineName_ne (hother _ hmem) name rfl

/-! ## Words -/

theorem spelled_written {lines : List String} (h : ∀ line ∈ lines, Spelled names line) : Spelled names (written lines) := by
  induction lines with
  | nil => exact spelled_of_isBoilerplate (by decide)
  | cons line lines ih =>
    obtain ⟨hline, hlines⟩ := List.forall_mem_cons.1 h
    rw [written_cons, String.append_assoc]
    exact spelled_append (.inr (beginsApart_append (by decide) (by decide))) hline
      (spelled_append (.inl (by decide)) (spelled_of_isBoilerplate (by decide)) (ih hlines))

theorem spelled_head {name back : String} (hname : IsName name) (hmem : name ∈ names)
    (hparted : beginsApart back = true) (hback : isBoilerplate back = true) :
    Spelled names ("void " ++ routineName name ++ back) :=
  spelled_append (.inr hparted)
    (spelled_append (.inl (by decide)) (spelled_of_isBoilerplate (by decide)) (spelled_routineName hname hmem))
    (spelled_of_isBoilerplate hback)

theorem spelled_of_all {lines : List String} (h : lines.all isBoilerplate = true) : ∀ line ∈ lines, Spelled names line :=
  fun line hline => spelled_of_isBoilerplate (List.all_eq_true.1 h line hline)

/-- The lines that stand in every text. -/
def fixedLines : List String :=
  headerLines ++ ["\x7d", "int main(void) \x7b", "    if (!d0) \x7b return 1; \x7d", "    free(d0);", "    return 0;"]

/-- The lines of a text are those of all texts, those that name a routine or say how many cells there are, and those of the bodies. -/
theorem Listing.forall_mem_sheet {P : String → Prop} {listing : Listing} (hfixed : ∀ line ∈ fixedLines, P line)
    (hnames : ∀ name ∈ listing.names,
      P (declaration name) ∧ P ("void " ++ routineName name ++ "(unsigned int s0) \x7b"))
    (hcells : P ("    d0 = (unsigned char *)calloc(" ++ toString listing.dataSize ++ ", 1);"))
    (hlines : ∀ lines ∈ listing.main :: listing.routines.map Prod.snd, ∀ line ∈ lines, P line.text) :
    ∀ line ∈ listing.sheet, P line := by
  obtain ⟨hheader, hrest⟩ := List.forall_mem_append.1 hfixed
  simp only [List.forall_mem_cons] at hrest
  obtain ⟨hclose, hmain, hcheck, hfree, hreturn, -⟩ := hrest
  have hempty : P "" := hheader "" (by decide)
  intro line hline
  rcases List.mem_append.1 hline with hpreamble | hdefinitions
  · rcases List.mem_append.1 hpreamble with hfront | hblank
    · rcases List.mem_append.1 hfront with hline | hdeclaration
      · exact hheader line hline
      · obtain ⟨name, hname, rfl⟩ := List.mem_map.1 hdeclaration
        exact (hnames name hname).1
    · split at hblank
      · cases hblank
      · exact List.mem_singleton.1 hblank ▸ hempty
  · rcases List.mem_append.1 hdefinitions with hroutines | hline
    · obtain ⟨⟨name, lines⟩, hroutine, hdefinition⟩ := List.mem_flatMap.1 hroutines
      have hname : name ∈ listing.names := List.mem_map_of_mem (f := Prod.fst) hroutine
      have hbody := hlines lines (List.mem_cons_of_mem _ (List.mem_map_of_mem (f := Prod.snd) hroutine))
      simp only [definitionLines, List.cons_append, List.mem_cons, List.mem_append, List.mem_map, List.not_mem_nil, or_false] at hdefinition
      rcases hdefinition with rfl | ⟨line, hmem, rfl⟩ | rfl | rfl
      · exact (hnames name hname).2
      · exact hbody line hmem
      · exact hclose
      · exact hempty
    · simp only [mainLines, List.cons_append, List.nil_append, List.mem_cons, List.mem_append, List.mem_map, List.not_mem_nil, or_false] at hline
      rcases hline with rfl | rfl | rfl | ⟨line, hmem, rfl⟩ | rfl | rfl | rfl
      · exact hmain
      · exact hcells
      · exact hcheck
      · exact hlines listing.main List.mem_cons_self line hmem
      · exact hfree
      · exact hreturn
      · exact hclose

theorem isBoilerplate_fixedLines : fixedLines.all isBoilerplate = true := by decide +kernel

theorem spelled_cells (dataSize : Nat) : Spelled names ("    d0 = (unsigned char *)calloc(" ++ toString dataSize ++ ", 1);") :=
  spelled_append (.inr (by decide))
    (spelled_append (.inl (by decide)) (spelled_of_isBoilerplate (by decide)) (spelled_nat dataSize))
    (spelled_of_isBoilerplate (by decide))

theorem Listing.spelled_text {listing : Listing} (hnames : ∀ name ∈ listing.names, IsName name)
    (hcalls : ∀ lines ∈ listing.main :: listing.routines.map Prod.snd, ∀ line ∈ lines, ∀ name argument,
      line.statement = .call name argument → name ∈ listing.names) :
    Spelled listing.names listing.text := by
  rw [text_eq_written]
  refine spelled_written (forall_mem_sheet (spelled_of_all isBoilerplate_fixedLines) ?_ (spelled_cells _) ?_)
  · exact fun name hname =>
      ⟨spelled_head (hnames name hname) hname (by decide) (by decide), spelled_head (hnames name hname) hname (by decide) (by decide)⟩
  · refine fun lines hlines line hline => spelled_line fun name argument hcall => ?_
    have hmem := hcalls lines hlines line hline name argument hcall
    exact ⟨hnames name hmem, hmem⟩

/-! ## Programs -/

theorem Listing.declaration_mem_preamble {listing : Listing} {name : String} (h : name ∈ listing.names) :
    declaration name ∈ listing.preamble :=
  List.mem_append_left _ (List.mem_append_right _ (List.mem_map_of_mem h))

theorem Listing.text_mem_definitions {listing : Listing} {lines : List Line} {line : Line}
    (hlines : lines ∈ listing.main :: listing.routines.map Prod.snd) (hline : line ∈ lines) : line.text ∈ listing.definitions := by
  have htext : line.text ∈ lines.map Line.text := List.mem_map_of_mem hline
  rcases List.mem_cons.1 hlines with rfl | hroutine
  · exact List.mem_append_right _ (List.mem_append_left _ (List.mem_append_right _ htext))
  · obtain ⟨⟨name, _⟩, hmem, rfl⟩ := List.mem_map.1 hroutine
    refine List.mem_append_left _ (List.mem_flatMap.2 ⟨_, hmem, ?_⟩)
    exact List.mem_append_left _ (List.mem_cons_of_mem _ htext)

section
variable {limits : Limits} {program : Program}

theorem exists_body_of_listing {listing : Listing} (h : Listing.ofProgram limits program = .ok listing) {lines : List Line}
    (hlines : lines ∈ listing.main :: listing.routines.map Prod.snd) :
    ∃ inApplication body, linesOf limits program inApplication body = .ok lines := by
  rcases List.mem_cons.1 hlines with rfl | hroutine
  · exact ⟨false, program.entry, (main_of_listing h).2⟩
  · obtain ⟨routine, hmem, rfl⟩ := List.mem_map.1 hroutine
    have hbodies := forall₂_of_routinesOf (listing_eq_ok_iff.1 h).1
    generalize program.applications = applications at hbodies
    generalize listing.routines = routines at hbodies hmem
    induction hbodies with
    | nil => cases hmem
    | cons hnamed _ ih =>
      rcases List.mem_cons.1 hmem with rfl | hlater
      · exact ⟨true, _, hnamed.2⟩
      · exact ih hlater

/-- The text of a program is the header, a prototype and a definition for each application in order, and the main routine. Whatever is
called is an application with its prototype in front. If names are distinct, nothing is declared twice, and in no case under a word of the
language or a name of the inside or of the library; and there are no other words than these. -/
theorem ofProgram_layout {text : String} (h : ofProgram limits program = .ok text) :
    let names := program.applications.map Prod.fst
    ∃ listing : Listing,
      (text = written listing.sheet ∧ listing.names = names ∧ listing.dataSize = limits.dataSize ∧
        List.Forall₂ (fun application routine =>
          routine.1 = application.1 ∧ linesOf limits program true application.2 = .ok routine.2)
          program.applications listing.routines ∧
        linesOf limits program false program.entry = .ok listing.main) ∧
      (∀ lines ∈ listing.main :: listing.routines.map Prod.snd, ∀ line ∈ lines, ∀ name argument,
        line.statement = .call name argument →
        name ∈ names ∧ ∃ before between after, listing.sheet = before ++ declaration name :: (between ++ line.text :: after)) ∧
      (program.names.Nodup → (fileScopeNames names).Nodup) ∧
      (∀ word ∈ fileScopeNames names, word ∉ languageWords ++ localNames ++ libraryNames) ∧
      ((∀ name ∈ names, IsName name) → ∀ word ∈ identifiers text,
        word ∈ languageWords ++ localNames ++ libraryNames ∨ word ∈ fileScopeNames names ∨ IsNumeral word) := by
  intro names
  obtain ⟨listing, hlisting, rfl⟩ := exists_listing_of_ofProgram h
  obtain ⟨hroutines, hmain, hsize⟩ := listing_eq_ok_iff.1 hlisting
  have hnames : listing.names = names := names_of_routinesOf hroutines
  have hcalls : ∀ lines ∈ listing.main :: listing.routines.map Prod.snd, ∀ line ∈ lines, ∀ name argument,
      line.statement = .call name argument → name ∈ names := by
    intro lines hlines line hline name argument hcall
    obtain ⟨inApplication, body, hbody⟩ := exists_body_of_listing hlisting hlines
    exact Program.mem_names_of_isApplication (calls_of_linesOf hbody line hline name argument hcall)
  refine ⟨listing, ⟨listing.text_eq_written, hnames, hsize, forall₂_of_routinesOf hroutines, hmain⟩, ?_, ?_, ?_, ?_⟩
  · intro lines hlines line hline name argument hcall
    have hname := hcalls lines hlines line hline name argument hcall
    refine ⟨hname, ?_⟩
    obtain ⟨before, rest, hpreamble⟩ := List.append_of_mem (Listing.declaration_mem_preamble (hnames ▸ hname))
    obtain ⟨front, after, hdefinitions⟩ := List.append_of_mem (Listing.text_mem_definitions hlines hline)
    refine ⟨before, rest ++ front, after, ?_⟩
    rw [Listing.sheet, hpreamble, hdefinitions]
    simp only [List.append_assoc, List.cons_append]
  · intro hnodup
    have hsublist : names.Sublist program.names := List.filter_sublist.map Prod.fst
    exact nodup_fileScopeNames (hsublist.nodup hnodup)
  · exact fun word => not_mem_of_mem_fileScopeNames
  · intro hallowed word hword
    have hspelled := Listing.spelled_text (hnames ▸ hallowed) (hnames ▸ hcalls) word hword
    rw [hnames] at hspelled
    rcases hspelled with hcommon | hroutine | hnumeral
    · exact (List.mem_append.1 hcommon).imp id fun hown => .inl (List.mem_append_left _ hown)
    · exact .inr (.inl (List.mem_append_right _ hroutine))
    · exact .inr (.inr hnumeral)

/-- The program `{inc [$ +]} {foo [$ inc]} [0 foo]` calls an application from another one and from its entry point. -/
theorem ofProgram_layout_of_two :
    let program : Program :=
      ⟨[(entryName, [.opening .applicator, .literal 0, .identifier "foo", .closing .applicator]),
        ("inc", [.opening .applicator, .parameter, .builtin .increment, .closing .applicator]),
        ("foo", [.opening .applicator, .parameter, .identifier "inc", .closing .applicator])]⟩
    ∃ (text : String) (listing : Listing), ofProgram ⟨16, 4⟩ program = .ok text ∧ text = written listing.sheet ∧
      listing.routines = [("inc", [⟨1, .increment .parameter⟩]), ("foo", [⟨1, .call "inc" .parameter⟩])] ∧
      (∃ before between after, listing.sheet =
        before ++ "void a_inc(unsigned int s0);" :: (between ++ "    a_inc(s0);" :: after)) ∧
      (fileScopeNames ["inc", "foo"]).Nodup := by
  intro program
  obtain ⟨text, htext⟩ : ∃ text, ofProgram ⟨16, 4⟩ program = .ok text := by
    have hlisting : Listing.ofProgram ⟨16, 4⟩ program = .ok ⟨16,
        [("inc", [⟨1, .increment .parameter⟩]), ("foo", [⟨1, .call "inc" .parameter⟩])], [⟨1, .call "foo" (.literal 0)⟩]⟩ := rfl
    rw [ofProgram_eq_map_text, hlisting]
    exact ⟨_, rfl⟩
  obtain ⟨listing, ⟨hsheet, -, -, hbodies, -⟩, hcalls, hnodup, -⟩ := ofProgram_layout htext
  have hroutines : listing.routines = [("inc", [⟨1, .increment .parameter⟩]), ("foo", [⟨1, .call "inc" .parameter⟩])] := by
    have hinc : linesOf ⟨16, 4⟩ program true [.opening .applicator, .parameter, .builtin .increment, .closing .applicator] =
        .ok [⟨1, .increment .parameter⟩] := rfl
    have hfoo : linesOf ⟨16, 4⟩ program true [.opening .applicator, .parameter, .identifier "inc", .closing .applicator] =
        .ok [⟨1, .call "inc" .parameter⟩] := rfl
    have happlications : program.applications =
        [("inc", [.opening .applicator, .parameter, .builtin .increment, .closing .applicator]),
          ("foo", [.opening .applicator, .parameter, .identifier "inc", .closing .applicator])] := rfl
    rw [happlications] at hbodies
    obtain ⟨⟨_, first⟩, others, ⟨hfirstName, hfirst⟩, hothers, hroutines⟩ := List.forall₂_cons_left_iff.1 hbodies
    obtain ⟨⟨_, second⟩, none, ⟨hsecondName, hsecond⟩, hnone, rfl⟩ := List.forall₂_cons_left_iff.1 hothers
    obtain rfl := List.forall₂_nil_left_iff.1 hnone
    obtain rfl := Except.ok.inj (hinc.symm.trans hfirst)
    obtain rfl := Except.ok.inj (hfoo.symm.trans hsecond)
    change _ = "inc" at hfirstName
    change _ = "foo" at hsecondName
    subst hfirstName hsecondName
    exact hroutines
  have hlines : [⟨1, .call "inc" .parameter⟩] ∈ listing.main :: listing.routines.map Prod.snd := by
    rw [hroutines]
    exact List.mem_cons_of_mem _ (List.mem_cons_of_mem _ List.mem_cons_self)
  obtain ⟨-, hcall⟩ := hcalls _ hlines _ List.mem_cons_self "inc" .parameter rfl
  exact ⟨text, listing, htext, hsheet, hroutines, hcall, hnodup (by decide)⟩

end

end Bracketry.CProgram
