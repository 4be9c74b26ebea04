import Bracketry.Proofs.Program.Extraction
import Mathlib.Data.List.Perm.Basic

/-!
# Rearranged definitions

The places of the definitions in a source text, and their order, do not matter to what the program has.

* `Program.PartOf` : a program has the entry point of another one and some of its applications;
* `Sections.Whole` : the definitions of a stream stand between whole brackets; `Sections.checkBrackets_tokens` : then it is well
  nested if they are;
* `Sections.Rearranges` : two streams have the same definitions and the same residue;
* `Program.exists_ofSource_of_rearranges` : a rearranged source text is the text of a program with the same bodies.
-/

namespace Bracketry

/-! ## Parts of programs -/

/-- The same entry point, and the same body for every application of the first program. The second one may have more, in any order. -/
structure Program.PartOf (program other : Program) : Prop where
  entry : other.entry = program.entry
  applications {name : String} {body : List Token} (h : program.applications.lookup name = some body) :
    other.applications.lookup name = some body

namespace Program
variable {program other : Program}

theorem PartOf.body? (h : program.PartOf other) {name : String} {body : List Token} (hname : name ≠ entryName)
    (hbody : program.body? name = some body) : other.body? name = some body :=
  (lookup_applications_eq_some_iff.1 (h.applications (lookup_applications_eq_some_iff.2 ⟨hname, hbody⟩))).2

theorem PartOf.isApplication (h : program.PartOf other) {name : String} (hname : program.isApplication name = true) :
    other.isApplication name = true := by
  obtain ⟨body, hbody⟩ := isApplication_iff.1 hname
  exact isApplication_iff.2 ⟨body, h.applications hbody⟩

end Program

/-! ## Whole brackets -/

namespace Nesting

theorem exists_push_definition {nesting : Nesting} (hcounted : nesting.Counted) (h : nesting.openings = []) :
    ∃ next, nesting.push .definition = .ok next := by
  have hopen : nesting.depths.anyOpen = false := by
    refine List.any_eq_false.2 fun kind _ => ?_
    rw [hcounted kind, h, List.count_nil]
    decide
  unfold push
  rw [if_neg fun hdefinition => by rw [hopen] at hdefinition; cases hdefinition.2]
  exact ⟨_, rfl⟩

end Nesting

namespace Sections
variable {sections : Sections}

/-- Nothing is open where a definition stands. -/
structure Whole (sections : Sections) : Prop where
  leading : Closes [] sections.leading
  following : ∀ definition ∈ sections.definitions, Closes [] definition.2

theorem whole_cons {leading inside following : List Token} {rest : List (List Token × List Token)}
    (h : Whole ⟨leading, (inside, following) :: rest⟩) : Closes [] leading ∧ Whole ⟨following, rest⟩ :=
  ⟨h.leading, h.following _ List.mem_cons_self, fun definition hmem => h.following definition (List.mem_cons_of_mem _ hmem)⟩

theorem foldlM_of_whole {nesting : Nesting} (hcounted : nesting.Counted) (hopenings : nesting.openings = [])
    (hwhole : sections.Whole) (hinside : ∀ inside ∈ sections.insides, Closes [] inside) :
    ∃ next, sections.tokens.foldlM Nesting.step nesting = .ok next ∧ next.openings = [] ∧ next.Counted := by
  obtain ⟨leading, definitions⟩ := sections
  induction definitions generalizing leading nesting with
  | nil =>
    rw [tokens_nil]
    exact foldlM_of_closes hcounted hopenings hwhole.leading
  | cons definition rest ih =>
    obtain ⟨inside, following⟩ := definition
    obtain ⟨hleading, hrest⟩ := whole_cons hwhole
    obtain ⟨hfirst, hothers⟩ := List.forall_mem_cons.1 hinside
    -- The stream is read piece by piece: what leads, the opening brace, what it holds, the closing brace, and the rest.
    obtain ⟨before, hbefore, hnone, hcounted⟩ := foldlM_of_closes hcounted hopenings hleading
    obtain ⟨opened, hpush⟩ := Nesting.exists_push_definition hcounted hnone
    obtain ⟨hopened, hcounted⟩ := Nesting.counted_of_push hcounted hpush
    obtain ⟨held, hheld, hleft, hcounted⟩ := foldlM_of_closes hcounted hopened hfirst
    rw [hnone] at hleft
    obtain ⟨closed, hpop⟩ := Nesting.exists_pop_of_openings hcounted hleft
    obtain ⟨hclosed, hcounted⟩ := Nesting.counted_of_pop hcounted hpop
    obtain ⟨last, hlast, hend⟩ := ih hcounted (List.cons.inj (hclosed.symm.trans hleft)).2 following hrest hothers
    refine ⟨last, ?_, hend⟩
    rw [tokens_cons, List.foldlM_append, hbefore]
    refine bind_eq_ok_iff.2 ⟨before, rfl, ?_⟩
    rw [List.foldlM_cons]
    refine bind_eq_ok_iff.2 ⟨opened, hpush, ?_⟩
    rw [List.foldlM_append]
    refine bind_eq_ok_iff.2 ⟨held, hheld, ?_⟩
    rw [List.foldlM_cons]
    exact bind_eq_ok_iff.2 ⟨closed, hpop, hlast⟩

theorem checkBrackets_tokens (hwhole : sections.Whole) (hinside : ∀ inside ∈ sections.insides, Closes [] inside) :
    checkBrackets sections.tokens = .ok () := by
  obtain ⟨last, hrun, hopenings, hcounted⟩ := foldlM_of_whole Nesting.counted_empty rfl hwhole hinside
  exact bind_eq_ok_iff.2 ⟨last, hrun, Nesting.finish_of_openings_eq_nil hcounted hopenings⟩

theorem free_of_whole (hwhole : sections.Whole) (hinside : ∀ inside ∈ sections.insides, Closes [] inside) : sections.Free where
  leading := hwhole.leading.isBrace_eq_false List.not_mem_nil
  inside _ hdefinition := (hinside _ (List.mem_map_of_mem hdefinition)).isBrace_eq_false List.not_mem_nil
  following definition hdefinition := (hwhole.following definition hdefinition).isBrace_eq_false List.not_mem_nil

/-! ## Moving definitions -/

/-- The same definitions, in any order and at any places of the same residue. -/
structure Rearranges (other sections : Sections) : Prop where
  insides : other.insides.Perm sections.insides
  residue : other.residue = sections.residue

end Sections

namespace Definition

/-- What introduces applications introduces them in any order. -/
theorem exists_introduce_of_perm {insides insides' : List (List Token)} {applications : List (String × List Token)}
    (hperm : insides'.Perm insides) (h : Introduce insides applications) :
    ∃ applications', Introduce insides' applications' ∧ applications'.Perm applications := by
  have hread : List.Forall₂ (fun inside (application : String × List Token) => inside = .identifier application.1 :: application.2)
      insides applications := by
    rw [h.insides_eq, List.forall₂_map_left_iff]
    exact List.forall₂_same.2 fun _ _ => rfl
  obtain ⟨applications', hread', hsame⟩ := List.perm_comp_forall₂ hperm hread
  have hnames := hsame.map Prod.fst
  refine ⟨applications', ⟨?_, fun name hname => h.allowed name (hnames.mem_iff.1 hname), hnames.nodup_iff.2 h.distinct⟩, hsame⟩
  rw [← List.forall₂_eq_eq_eq, List.forall₂_map_right_iff]
  exact hread'

end Definition

namespace Program
open Definition

variable {program : Program} {sections other : Sections} {source source' : String}

/-- Programs are parts of each other if their applications are the same in any order. -/
theorem partOf_of_perm {entry : List Token} {insides : List (List Token)} {applications applications' : List (String × List Token)}
    (h : Introduce insides applications) (hperm : applications.Perm applications') :
    (ofParts entry applications).PartOf (ofParts entry applications') where
  entry := rfl
  applications {name body} hlookup := by
    have hnodup : ∀ {named : List (String × List Token)}, named.Perm applications → (ofParts entry named).names.Nodup := by
      intro named hnamed
      rw [names_ofParts]
      exact ((hnamed.map Prod.fst).cons entryName).nodup_iff.2
        (List.nodup_cons.2 ⟨fun hmem => not_mem_names_of_introduce h entryName hmem rfl, h.distinct⟩)
    obtain ⟨hname, hbody⟩ := lookup_applications_eq_some_iff.1 hlookup
    rw [body?_eq_some_iff (hnodup (.refl _))] at hbody
    have hmem : (name, body) ∈ (ofParts entry applications').bodies := ((hperm.map bound).cons _).mem_iff.1 hbody
    exact lookup_applications_eq_some_iff.2 ⟨hname, (body?_eq_some_iff (hnodup hperm.symm)).2 hmem⟩

/-- A source text whose definitions are moved between whole brackets is the text of a program with the same bodies. -/
theorem exists_ofSource_of_rearranges (hlex : Source.lex source = .ok sections.tokens)
    (hlex' : Source.lex source' = .ok other.tokens) (hfree : sections.Free) (hwhole : other.Whole)
    (hrearranges : other.Rearranges sections) (h : ofSource source = .ok program) :
    ∃ program', ofSource source' = .ok program' ∧ program.PartOf program' ∧ program'.PartOf program := by
  obtain ⟨tokens, hlexed, h⟩ := bind_eq_ok_iff.1 h
  obtain rfl : sections.tokens = tokens := Except.ok.inj (hlex.symm.trans (mapError_eq_ok_iff.1 hlexed))
  obtain ⟨_, hchecked, h⟩ := bind_eq_ok_iff.1 h
  obtain ⟨closed, htokens, hclosed⟩ := Sections.exists_of_checkBrackets (mapError_eq_ok_iff.1 hchecked)
  obtain rfl := Sections.eq_of_tokens_eq (Sections.free_of_closed List.not_mem_nil hclosed) hfree htokens
  obtain ⟨applications, hintroduce, hargument, rfl⟩ := (ofTokens_eq_ok_iff hfree).1 h
  obtain ⟨applications', hintroduce', hperm⟩ := exists_introduce_of_perm hrearranges.insides hintroduce
  have hinside : ∀ inside ∈ other.insides, Closes [] inside :=
    fun inside hmem => hclosed.inside inside (hrearranges.insides.mem_iff.1 hmem)
  refine ⟨ofParts closed.residue applications', ?_, partOf_of_perm hintroduce hperm.symm, partOf_of_perm hintroduce' hperm⟩
  refine bind_eq_ok_iff.2 ⟨_, mapError_eq_ok_iff.2 hlex', bind_eq_ok_iff.2 ⟨(), ?_, ?_⟩⟩
  · exact mapError_eq_ok_iff.2 (Sections.checkBrackets_tokens hwhole hinside)
  · rw [← hrearranges.residue] at hargument ⊢
    exact (ofTokens_eq_ok_iff (Sections.free_of_whole hwhole hinside)).2 ⟨applications', hintroduce', hargument, rfl⟩

end Program

end Bracketry
