import Bracketry.Program.Interchange
import Bracketry.Proofs.Json.Table
import Bracketry.Proofs.Program.Extraction

/-!
# Programs that were loaded

A program comes from a source text or from its interchange form. What it then has was checked on either way.

* `Program.Loaded` : the programs that are read from some text;
* `Program.checkBody_eq_ok_iff`, `Program.checkBodies_eq_ok_iff` : the bodies that pass the check, and what is kept of them;
* `Program.Sound` : every body passes the check as it is, every token is read again from its spelling, and every name has one body;
* `Program.sound_of_loaded` : loaded programs are sound.
-/

namespace Bracketry

namespace Program
open Definition

variable {program : Program} {name : String} {body result : List Token}

/-- The program was read from a source text or from a text in interchange form. -/
def Loaded (program : Program) : Prop :=
  (∃ source, ofSource source = .ok program) ∨ ∃ json, ofJson json = .ok program

/-! ## The check of a body -/

theorem checkBody_eq_ok_iff :
    checkBody name body = .ok result ↔
      (name ≠ entryName → checkName name = .ok ()) ∧ Closes [] body ∧
        (name = entryName → ∀ t ∈ body, t.isArgument = false) ∧ result = body.map Token.bindParameter := by
  have hbrace : ¬body.contains (.opening .definition) = true ↔ .opening .definition ∉ body := not_congr List.contains_iff_mem
  have hargument : ¬(name == entryName && body.any Token.isArgument) = true ↔
      (name = entryName → ∀ t ∈ body, t.isArgument = false) := by simp
  have hname : (name != entryName) = true ↔ name ≠ entryName := bne_iff_ne
  rw [closes_iff, checkBody, when_eq_ok_iff]
  simp only [bind_eq_ok_iff, mapError_eq_ok_iff, unless_eq_ok_iff, hbrace, hargument, hname]
  constructor
  · rintro ⟨hallowed, _, hnested, hfree, hbound, hresult⟩
    exact ⟨hallowed, ⟨hnested, hfree⟩, hbound, (Except.ok.inj hresult).symm⟩
  · rintro ⟨hallowed, ⟨hnested, hfree⟩, hbound, rfl⟩
    exact ⟨hallowed, (), hnested, hfree, hbound, rfl⟩

/-- What is kept of a body passes the check again and is kept as it is. -/
theorem checkBody_of_checkBody (h : checkBody name body = .ok result) : checkBody name result = .ok result := by
  obtain ⟨hname, hcloses, hargument, rfl⟩ := checkBody_eq_ok_iff.1 h
  refine checkBody_eq_ok_iff.2 ⟨hname, hcloses.map_bindParameter, fun hentry t ht => ?_, ?_⟩
  · obtain ⟨t', ht', rfl⟩ := List.mem_map.1 ht
    rw [Token.isArgument_bindParameter]
    exact hargument hentry t' ht'
  · rw [List.map_map]
    exact List.map_congr_left fun t _ => (Token.bindParameter_bindParameter t).symm

/-! ## Sound programs -/

structure Sound (program : Program) : Prop where
  distinct : program.names.Nodup
  entry : entryName ∈ program.names
  checked : ∀ named ∈ program.bodies, checkBody named.1 named.2 = .ok named.2
  legible : Json.Legible program.bodies

/-! ## From source text -/

theorem isLegible_of_lex {source : String} {tokens : List Token} (h : Source.lex source = .ok tokens) :
    ∀ t ∈ tokens, t.IsLegible := fun t ht => by
  obtain ⟨word, -, hread⟩ := exists_of_mem_mapM h ht
  exact Token.isLegible_of_ofWord hread

theorem map_bindParameter_eq_self (h : .placeholder ∉ body) : body.map Token.bindParameter = body := by
  refine (List.map_congr_left fun t ht => ?_).trans (List.map_id body)
  cases t with
  | placeholder => exact absurd ht h
  | _ => rfl

theorem sound_of_ofTokens {tokens : List Token} (hchecked : checkBrackets tokens = .ok ()) (hlegible : ∀ t ∈ tokens, t.IsLegible)
    (h : ofTokens tokens = .ok program) : program.Sound := by
  obtain ⟨sections, rfl, hclosed⟩ := Sections.exists_of_checkBrackets hchecked
  have hfree := Sections.free_of_closed List.not_mem_nil hclosed
  obtain ⟨applications, hintroduce, hargument, rfl⟩ := (ofTokens_eq_ok_iff hfree).1 h
  have hbodies := isBody_of_closed hclosed hintroduce hargument
  have hother := not_mem_names_of_introduce hintroduce
  refine ⟨?_, ?_, List.forall_mem_cons.2 ⟨?_, ?_⟩, List.forall_mem_cons.2 ⟨?_, ?_⟩⟩
  · rw [names_ofParts]
    exact List.nodup_cons.2 ⟨fun hmem => hother entryName hmem rfl, hintroduce.distinct⟩
  · rw [names_ofParts]
    exact List.mem_cons_self
  · have hplaceholder : .placeholder ∉ sections.residue := fun hmem => by cases hargument _ hmem
    exact checkBody_eq_ok_iff.2 ⟨fun hne => absurd rfl hne, hclosed.residue, fun _ => hargument,
      (map_bindParameter_eq_self hplaceholder).symm⟩
  · intro named hnamed
    obtain ⟨⟨name, body⟩, hmem, rfl⟩ := List.mem_map.1 hnamed
    have hbody := hbodies _ (List.mem_map_of_mem (List.mem_cons_of_mem _ hnamed))
    have hname : name ∈ applications.map Prod.fst := List.mem_map_of_mem hmem
    exact checkBody_eq_ok_iff.2 ⟨fun _ => checkName_eq_ok_iff.2 (hintroduce.allowed name hname), closes_of_isBody hbody,
      fun hentry => absurd hentry (hother name hname), (map_bindParameter_eq_self hbody.bound).symm⟩
  · exact fun t ht => hlegible t (Sections.mem_tokens_of_mem_residue ht)
  · intro named hnamed t ht
    obtain ⟨⟨name, body⟩, hmem, rfl⟩ := List.mem_map.1 hnamed
    obtain ⟨t', ht', rfl⟩ := List.mem_map.1 ht
    exact Token.isLegible_bindParameter (hlegible t' (Sections.mem_tokens_of_mem_insides
      (mem_insides_of_introduce hintroduce hmem) (List.mem_cons_of_mem _ ht')))

theorem sound_of_ofSource {source : String} (h : ofSource source = .ok program) : program.Sound := by
  obtain ⟨tokens, hlex, h⟩ := bind_eq_ok_iff.1 h
  obtain ⟨_, hchecked, h⟩ := bind_eq_ok_iff.1 h
  exact sound_of_ofTokens (mapError_eq_ok_iff.1 hchecked) (isLegible_of_lex (mapError_eq_ok_iff.1 hlex)) h

/-! ## From interchange form -/

theorem mem_bodies_of_mem_set {named : String × List Token} (h : named ∈ (program.set name body).bodies) :
    named = (name, body) ∨ named ∈ program.bodies := by
  unfold set at h
  split at h
  · obtain ⟨old, hold, rfl⟩ := List.mem_map.1 h
    split
    · exact .inl rfl
    · exact .inr hold
  · exact (List.mem_append.1 h).symm.imp List.mem_singleton.1 id

def setAll (program : Program) (members : List (String × List Token)) : Program :=
  members.foldl (fun program member => program.set member.1 member.2) program

theorem ofMembers_eq (members : List (String × List Token)) : ofMembers members = setAll ⟨[]⟩ members := rfl

theorem nodup_names_setAll (members : List (String × List Token)) (h : program.names.Nodup) :
    (program.setAll members).names.Nodup := by
  induction members generalizing program with
  | nil => exact h
  | cons member members ih => exact ih (nodup_names_set h)

theorem mem_of_mem_setAll {members : List (String × List Token)} {named : String × List Token}
    (h : named ∈ (program.setAll members).bodies) : named ∈ program.bodies ∨ named ∈ members := by
  induction members generalizing program with
  | nil => exact .inl h
  | cons member members ih =>
    rcases ih h with hset | hmem
    · rcases mem_bodies_of_mem_set hset with rfl | hold
      · exact .inr List.mem_cons_self
      · exact .inl hold
    · exact .inr (List.mem_cons_of_mem _ hmem)

def checkBodies (bodies : List (String × List Token)) : Except Error (List (String × List Token)) :=
  bodies.mapM fun (name, body) => return (name, ← checkBody name body)

theorem checkNamed_eq_ok_iff {named checked : String × List Token} :
    (return (named.1, ← checkBody named.1 named.2) : Except Error _) = .ok checked ↔
      checkBody named.1 named.2 = .ok checked.2 ∧ checked = bound named := by
  rw [bind_eq_ok_iff]
  constructor
  · rintro ⟨result, hbody, heq⟩
    obtain rfl := Except.ok.inj heq
    exact ⟨hbody, congrArg (Prod.mk named.1) (checkBody_eq_ok_iff.1 hbody).2.2.2⟩
  · rintro ⟨hbody, rfl⟩
    exact ⟨_, hbody, rfl⟩

theorem checkBodies_eq_ok_iff {bodies results : List (String × List Token)} :
    checkBodies bodies = .ok results ↔
      (∀ named ∈ bodies, ∃ result, checkBody named.1 named.2 = .ok result) ∧ results = bodies.map bound := by
  rw [checkBodies, mapM_eq_ok_iff_map fun h => (checkNamed_eq_ok_iff.1 h).2]
  refine and_congr_left fun _ => forall₂_congr fun named _ => ?_
  constructor
  · rintro ⟨checked, h⟩
    exact ⟨_, (checkNamed_eq_ok_iff.1 h).1⟩
  · rintro ⟨result, h⟩
    obtain rfl := (checkBody_eq_ok_iff.1 h).2.2.2
    exact ⟨bound named, checkNamed_eq_ok_iff.2 ⟨h, rfl⟩⟩

theorem names_of_checkBodies {given : Program} (h : checkBodies given.bodies = .ok program.bodies) :
    program.names = given.names := by
  rw [names, (checkBodies_eq_ok_iff.1 h).2, List.map_map]
  rfl

theorem ofJson_eq_ok_iff {json : String} :
    ofJson json = .ok program ↔
      ∃ members, Json.readTable json.toList = .ok members ∧ entryName ∈ (ofMembers members).names ∧
        checkBodies (ofMembers members).bodies = .ok program.bodies := by
  unfold ofJson
  simp only [bind_eq_ok_iff, mapError_eq_ok_iff, unless_eq_ok_iff]
  constructor
  · rintro ⟨members, hread, hentry, bodies, hbodies, heq⟩
    cases heq
    exact ⟨members, hread, contains_iff.1 (by simpa using hentry), hbodies⟩
  · rintro ⟨members, hread, hentry, hbodies⟩
    exact ⟨members, hread, by simpa using contains_iff.2 hentry, program.bodies, hbodies, rfl⟩

theorem sound_of_ofJson {json : String} (h : ofJson json = .ok program) : program.Sound := by
  obtain ⟨members, hread, hentry, hbodies⟩ := ofJson_eq_ok_iff.1 h
  have hnames := names_of_checkBodies hbodies
  obtain ⟨hpass, hbodies⟩ := checkBodies_eq_ok_iff.1 hbodies
  have hgiven : ∀ named ∈ program.bodies, ∃ given ∈ (ofMembers members).bodies, bound given = named :=
    fun named hnamed => List.mem_map.1 (hbodies ▸ hnamed)
  refine ⟨hnames ▸ nodup_names_setAll members List.nodup_nil, hnames ▸ hentry, fun named hnamed => ?_, fun named hnamed t ht => ?_⟩
  · obtain ⟨given, hmem, rfl⟩ := hgiven named hnamed
    obtain ⟨result, hbody⟩ := hpass given hmem
    obtain rfl := (checkBody_eq_ok_iff.1 hbody).2.2.2
    exact checkBody_of_checkBody hbody
  · obtain ⟨given, hmem, rfl⟩ := hgiven named hnamed
    obtain ⟨t', ht', rfl⟩ := List.mem_map.1 ht
    have hmember := (mem_of_mem_setAll hmem).resolve_left List.not_mem_nil
    exact Token.isLegible_bindParameter (Json.legible_of_readTable hread _ hmember t' ht')

/-- Whichever text a program was read from, it is sound. -/
theorem sound_of_loaded (h : program.Loaded) : program.Sound :=
  h.elim (fun ⟨_, hsource⟩ => sound_of_ofSource hsource) fun ⟨_, hjson⟩ => sound_of_ofJson hjson

end Program

end Bracketry
