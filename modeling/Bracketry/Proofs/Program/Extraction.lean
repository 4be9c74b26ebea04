import Bracketry.Proofs.Program.Names
import Bracketry.Proofs.Program.Sections

/-!
# What a token stream defines

The program of a stream has the definitions between the braces as applications and the residue as its entry point.

* `Definition.Introduce` : what the braces hold introduces applications, under names that are allowed and distinct;
* `Definition.Faulty` : the errors of one definition, given the names that are taken;
* `Program.collect_tokens` : collecting adds the definitions one after the other and leaves the residue;
* `Program.ofTokens_eq_ok_iff`, `Program.ofTokens_eq_error_iff` : the program of a stream, or the first thing that is wrong with it;
* `Program.ofTokens_of_checkBrackets` : the same for well-nested streams, whose bodies are well nested again.
-/

namespace Bracketry

namespace Definition

variable {token : Token} {tokens before after : List Token}

/-! ## Cutting at a token -/

theorem splitAtFirst_of_not_mem (h : token ∉ tokens) : splitAtFirst token tokens = none := by
  induction tokens with
  | nil => rfl
  | cons t tokens ih =>
    rw [splitAtFirst, if_neg fun heq : t = token => h (heq ▸ List.mem_cons_self), ih fun hmem => h (List.mem_cons_of_mem t hmem)]
    rfl

theorem splitAtFirst_append (h : token ∉ before) : splitAtFirst token (before ++ token :: after) = some (before, after) := by
  induction before with
  | nil => exact if_pos rfl
  | cons t before ih =>
    rw [List.cons_append, splitAtFirst, if_neg fun heq : t = token => h (heq ▸ List.mem_cons_self),
      ih fun hmem => h (List.mem_cons_of_mem t hmem)]
    rfl

theorem splitAtLast_of_not_mem (h : token ∉ tokens) : splitAtLast token tokens = none := by
  induction tokens with
  | nil => rfl
  | cons t tokens ih =>
    rw [splitAtLast, ih fun hmem => h (List.mem_cons_of_mem t hmem)]
    exact if_neg fun heq : t = token => h (heq ▸ List.mem_cons_self)

theorem splitAtLast_append (h : token ∉ after) : splitAtLast token (before ++ token :: after) = some (before, after) := by
  induction before with
  | nil =>
    rw [List.nil_append, splitAtLast, splitAtLast_of_not_mem h]
    exact if_pos rfl
  | cons t before ih =>
    rw [List.cons_append, splitAtLast, ih]

/-! ## One definition and several -/

/-- What is wrong with a definition when some names are taken. -/
inductive Faulty (taken : List String) : List Token → Error → Prop where
  | empty : Faulty taken [] (.invalidName "")
  /-- The first token is no word. -/
  | unnamed {t : Token} {body : List Token} (h : ∀ name, t ≠ .identifier name) : Faulty taken (t :: body) (.invalidName t.text)
  | misspelt {name : String} {body : List Token} (h : ¬IsName name) :
      Faulty taken (.identifier name :: body) (.invalidName name)
  | reserved {name : String} {body : List Token} (hname : IsName name) (h : IsReserved name) :
      Faulty taken (.identifier name :: body) (.reservedName name)
  | duplicate {name : String} {body : List Token} (hname : IsName name) (hfree : ¬IsReserved name) (h : name ∈ taken) :
      Faulty taken (.identifier name :: body) (.duplicateName name)

/-- Each pair of braces holds a name and a body. The names are allowed and no two of them are the same. -/
structure Introduce (insides : List (List Token)) (applications : List (String × List Token)) : Prop where
  insides_eq : insides = applications.map fun (name, body) => .identifier name :: body
  allowed : ∀ name ∈ applications.map Prod.fst, IsName name ∧ ¬IsReserved name
  distinct : (applications.map Prod.fst).Nodup

def bound (application : String × List Token) : String × List Token :=
  (application.1, application.2.map Token.bindParameter)

/-- Names that an application may not have anyway need not be taken. -/
theorem faulty_congr {taken taken' : List String} {inside : List Token} {error : Error}
    (htaken : ∀ name, ¬IsReserved name → (name ∈ taken ↔ name ∈ taken')) :
    Faulty taken inside error ↔ Faulty taken' inside error := by
  have himp : ∀ {taken taken' : List String}, (∀ name, ¬IsReserved name → name ∈ taken → name ∈ taken') →
      Faulty taken inside error → Faulty taken' inside error := by
    intro taken taken' htaken h
    cases h with
    | empty => exact .empty
    | unnamed h => exact .unnamed h
    | misspelt h => exact .misspelt h
    | reserved hname h => exact .reserved hname h
    | duplicate hname hfree h => exact .duplicate hname hfree (htaken _ hfree h)
  exact ⟨himp fun name hfree => (htaken name hfree).1, himp fun name hfree => (htaken name hfree).2⟩

theorem introduce_nil : Introduce [] [] := ⟨rfl, nofun, List.nodup_nil⟩

theorem introduce_unique {insides : List (List Token)} {applications applications' : List (String × List Token)}
    (h : Introduce insides applications) (h' : Introduce insides applications') : applications = applications' := by
  refine (List.map_inj_right ?_).1 (h.insides_eq.symm.trans h'.insides_eq)
  rintro ⟨name, body⟩ ⟨name', body'⟩ heq
  obtain ⟨hname, hbody⟩ := List.cons.inj heq
  rw [Token.identifier.inj hname, hbody]

theorem introduce_cons_iff {name : String} {body : List Token} {insides : List (List Token)}
    {applications : List (String × List Token)} :
    Introduce ((.identifier name :: body) :: insides) ((name, body) :: applications) ↔
      (IsName name ∧ ¬IsReserved name) ∧ name ∉ applications.map Prod.fst ∧ Introduce insides applications := by
  constructor
  · intro h
    have hallowed := List.forall_mem_cons.1 h.allowed
    have hdistinct := List.nodup_cons.1 h.distinct
    exact ⟨hallowed.1, hdistinct.1, (List.cons.inj h.insides_eq).2, hallowed.2, hdistinct.2⟩
  · rintro ⟨hname, hnew, h⟩
    exact ⟨congrArg _ h.insides_eq, List.forall_mem_cons.2 ⟨hname, h.allowed⟩, List.nodup_cons.2 ⟨hnew, h.distinct⟩⟩

end Definition

namespace Program
open Definition

variable {program result : Program} {inside : List Token} {insides : List (List Token)} {error : Error}

def define (program : Program) (inside : List Token) : Except Error Program := do
  let (name, body) ← ofSegment inside
  program.insert name body

/-! ## One definition -/

theorem ofSegment_of_ne {t : Token} (body : List Token) (h : ∀ name, t ≠ .identifier name) :
    ofSegment (t :: body) = .error (.invalidName t.text) := by
  cases t with
  | identifier name => exact absurd rfl (h name)
  | _ => rfl

theorem define_of_ne {t : Token} (body : List Token) (h : ∀ name, t ≠ .identifier name) :
    program.define (t :: body) = .error (.invalidName t.text) := by
  rw [define, ofSegment_of_ne body h]
  rfl

theorem define_eq_ok_iff :
    program.define inside = .ok result ↔
      ∃ name body, inside = .identifier name :: body ∧ (IsName name ∧ ¬IsReserved name) ∧ name ∉ program.names ∧
        result = ⟨program.bodies ++ [bound (name, body)]⟩ := by
  constructor
  · intro h
    cases inside with
    | nil => cases h
    | cons t body =>
      by_cases hname : ∃ name, t = .identifier name
      · obtain ⟨name, rfl⟩ := hname
        obtain ⟨hcheck, hnew, hresult⟩ := insert_eq_ok_iff.1 h
        exact ⟨name, body, rfl, checkName_eq_ok_iff.1 hcheck, hnew, hresult⟩
      · rw [define_of_ne body fun name heq => hname ⟨name, heq⟩] at h
        cases h
  · rintro ⟨name, body, rfl, hname, hnew, rfl⟩
    exact insert_eq_ok_iff.2 ⟨checkName_eq_ok_iff.2 hname, hnew, rfl⟩

theorem define_eq_error_iff : program.define inside = .error error ↔ Faulty program.names inside error := by
  constructor
  · intro h
    cases inside with
    | nil =>
      cases h
      exact .empty
    | cons t body =>
      by_cases hname : ∃ name, t = .identifier name
      · obtain ⟨name, rfl⟩ := hname
        rcases insert_eq_error_iff.1 h with hcheck | ⟨hcheck, htaken, rfl⟩
        · obtain ⟨hname, rfl⟩ | ⟨hname, hreserved, rfl⟩ := checkName_eq_error_iff.1 hcheck
          · exact .misspelt hname
          · exact .reserved hname hreserved
        · obtain ⟨hname, hfree⟩ := checkName_eq_ok_iff.1 hcheck
          exact .duplicate hname hfree htaken
      · have hword : ∀ name, t ≠ .identifier name := fun name heq => hname ⟨name, heq⟩
        rw [define_of_ne body hword] at h
        cases h
        exact .unnamed hword
  · intro h
    cases h with
    | empty => rfl
    | unnamed hword => exact define_of_ne _ hword
    | misspelt hname => exact insert_eq_error_iff.2 (.inl (checkName_eq_error_iff.2 (.inl ⟨hname, rfl⟩)))
    | reserved hname hreserved =>
      exact insert_eq_error_iff.2 (.inl (checkName_eq_error_iff.2 (.inr ⟨hname, hreserved, rfl⟩)))
    | duplicate hname hfree htaken =>
      exact insert_eq_error_iff.2 (.inr ⟨checkName_eq_ok_iff.2 ⟨hname, hfree⟩, htaken, rfl⟩)

/-! ## Several definitions -/

/-- Definitions are added if they introduce applications whose names the program does not have. -/
theorem foldlM_define_eq_ok_iff :
    insides.foldlM define program = .ok result ↔
      ∃ applications, Introduce insides applications ∧ (∀ name ∈ applications.map Prod.fst, name ∉ program.names) ∧
        result = ⟨program.bodies ++ applications.map bound⟩ := by
  induction insides generalizing program with
  | nil =>
    constructor
    · intro h
      cases h
      exact ⟨[], introduce_nil, nofun, by rw [List.map_nil, List.append_nil]⟩
    · rintro ⟨applications, h, -, rfl⟩
      obtain rfl := List.map_eq_nil_iff.1 h.insides_eq.symm
      rw [List.map_nil, List.append_nil]
      rfl
  | cons inside insides ih =>
    rw [List.foldlM_cons]
    constructor
    · intro h
      obtain ⟨next, hdefine, hrest⟩ := bind_eq_ok_iff.1 h
      obtain ⟨name, body, rfl, hname, hnew, rfl⟩ := define_eq_ok_iff.1 hdefine
      obtain ⟨applications, hintroduce, hapart, rfl⟩ := ih.1 hrest
      have hnames : ∀ other ∈ applications.map Prod.fst, other ∉ program.names ∧ other ≠ name := by
        simpa [names, bound] using hapart
      refine ⟨(name, body) :: applications, introduce_cons_iff.2 ⟨hname, ?_, hintroduce⟩, ?_, ?_⟩
      · exact fun hmem => (hnames name hmem).2 rfl
      · exact List.forall_mem_cons.2 ⟨hnew, fun other hmem => (hnames other hmem).1⟩
      · rw [List.map_cons, List.append_assoc, List.singleton_append]
    · rintro ⟨applications, hintroduce, hapart, rfl⟩
      cases applications with
      | nil => cases hintroduce.insides_eq
      | cons application applications =>
        obtain ⟨name, body⟩ := application
        obtain ⟨rfl, -⟩ := List.cons.inj hintroduce.insides_eq
        obtain ⟨hname, hother, hrest⟩ := introduce_cons_iff.1 hintroduce
        obtain ⟨hnew, hapart⟩ := List.forall_mem_cons.1 hapart
        have hdefine : program.define (.identifier name :: body) = .ok ⟨program.bodies ++ [bound (name, body)]⟩ :=
          define_eq_ok_iff.2 ⟨name, body, rfl, hname, hnew, rfl⟩
        refine bind_eq_ok_iff.2 ⟨_, hdefine, ih.2 ⟨applications, hrest, fun other hmem => ?_, ?_⟩⟩
        · have hne : other ≠ name := fun heq => hother (heq ▸ hmem)
          simpa [names, bound, hne] using hapart other hmem
        · rw [List.map_cons, List.append_assoc, List.singleton_append]

/-! ## A whole stream -/

theorem not_mem_of_isBrace_eq_false {tokens : List Token} (brace : Token) (hbrace : brace.isBrace = true)
    (h : ∀ t ∈ tokens, t.isBrace = false) : brace ∉ tokens := by
  intro hmem
  rw [h brace hmem] at hbrace
  cases hbrace

theorem collect_of_not_mem {leading : List Token} (h : .closing .definition ∉ leading) :
    program.collect leading = .ok (program, leading) := by
  unfold collect
  rw [splitAtFirst_of_not_mem h]

/-- The first closing brace ends the definition that the last opening brace before it began. -/
theorem collect_cut {leading inside : List Token} (rest : List Token) (hleading : .closing .definition ∉ leading)
    (hinside : ∀ t ∈ inside, t.isBrace = false) :
    program.collect (leading ++ .opening .definition :: (inside ++ .closing .definition :: rest)) = (do
      let next ← program.define inside
      let (last, left) ← next.collect rest
      return (last, leading ++ left)) := by
  have hcloser : Token.closing .definition ∉ leading ++ .opening .definition :: inside := by
    simp [hleading, not_mem_of_isBrace_eq_false (.closing .definition) rfl hinside]
  have hassoc : leading ++ .opening .definition :: (inside ++ .closing .definition :: rest) =
      (leading ++ .opening .definition :: inside) ++ .closing .definition :: rest := by
    rw [List.append_assoc, List.cons_append]
  rw [hassoc, collect]
  rw [splitAtFirst_append hcloser]
  dsimp only
  rw [splitAtLast_append (not_mem_of_isBrace_eq_false _ rfl hinside), define, bind_assoc]

/-- Collecting adds what the braces hold, one after the other, and leaves the residue. -/
theorem collect_tokens {sections : Sections} (hfree : sections.Free) :
    program.collect sections.tokens = (sections.insides.foldlM define program).map fun last => (last, sections.residue) := by
  obtain ⟨leading, definitions⟩ := sections
  induction definitions generalizing leading program with
  | nil =>
    rw [Sections.tokens_nil, collect_of_not_mem (not_mem_of_isBrace_eq_false _ rfl hfree.leading)]
    exact congrArg (fun rest => Except.ok (program, rest)) (List.append_nil leading).symm
  | cons definition rest ih =>
    obtain ⟨inside, following⟩ := definition
    obtain ⟨hleading, hinside, hrest⟩ := Sections.free_cons hfree
    rw [Sections.tokens_cons, collect_cut _ (not_mem_of_isBrace_eq_false _ rfl hleading) hinside]
    change _ = ((inside :: Sections.insides ⟨following, rest⟩).foldlM define program).map _
    rw [List.foldlM_cons]
    cases hdefine : program.define inside with
    | error error => rfl
    | ok next =>
      change ((next.collect (Sections.tokens ⟨following, rest⟩)) >>= fun (last, left) => pure (last, leading ++ left)) =
        ((Sections.insides ⟨following, rest⟩).foldlM define next).map _
      rw [ih following hrest]
      cases (Sections.insides ⟨following, rest⟩).foldlM define next with
      | error error => rfl
      | ok last => rfl

theorem ofTokens_tokens {sections : Sections} (hfree : sections.Free) :
    ofTokens sections.tokens = (do
      let program ← sections.insides.foldlM define (ofEntry [])
      if sections.residue.any Token.isArgument then throw .argumentOutsideApplication
      return program.setEntry sections.residue) := by
  rw [ofTokens, collect_tokens hfree]
  cases sections.insides.foldlM define (ofEntry []) with
  | error error => rfl
  | ok last => rfl

def ofParts (entry : List Token) (applications : List (String × List Token)) : Program :=
  ⟨(entryName, entry) :: applications.map bound⟩

variable {applications : List (String × List Token)} {entry : List Token}

theorem not_mem_names_of_introduce (h : Introduce insides applications) :
    ∀ name ∈ applications.map Prod.fst, name ≠ entryName :=
  fun name hname heq => (h.allowed name hname).2 (.inl heq)

theorem foldlM_define_ofEntry_eq_ok_iff :
    insides.foldlM define (ofEntry entry) = .ok result ↔
      ∃ applications, Introduce insides applications ∧ result = ofParts entry applications := by
  rw [foldlM_define_eq_ok_iff]
  constructor
  · rintro ⟨applications, hintroduce, -, rfl⟩
    exact ⟨applications, hintroduce, rfl⟩
  · rintro ⟨applications, hintroduce, rfl⟩
    refine ⟨applications, hintroduce, fun name hname hmem => ?_, rfl⟩
    exact not_mem_names_of_introduce hintroduce name hname (List.mem_singleton.1 hmem)

theorem setEntry_ofParts (other : List Token) (h : Introduce insides applications) :
    (ofParts entry applications).setEntry other = ofParts other applications := by
  refine set_cons_self fun hmem => ?_
  rw [List.map_map] at hmem
  exact not_mem_names_of_introduce h entryName hmem rfl

theorem names_ofParts : (ofParts entry applications).names = entryName :: applications.map Prod.fst := by
  simp [ofParts, names, bound]

theorem entry_ofParts : (ofParts entry applications).entry = entry := rfl

theorem applications_ofParts (h : Introduce insides applications) :
    (ofParts entry applications).applications = applications.map bound := by
  change List.filter _ ((entryName, entry) :: applications.map bound) = _
  rw [List.filter_cons_of_neg (by simp), List.filter_eq_self]
  intro application hmem
  obtain ⟨other, hother, rfl⟩ := List.mem_map.1 hmem
  exact bne_iff_ne.2 (not_mem_names_of_introduce h other.1 (List.mem_map_of_mem hother))

/-- A stream has a program if its braces introduce applications and no argument stands outside of them. -/
theorem ofTokens_eq_ok_iff {sections : Sections} (hfree : sections.Free) :
    ofTokens sections.tokens = .ok program ↔
      ∃ applications, Introduce sections.insides applications ∧ (∀ t ∈ sections.residue, t.isArgument = false) ∧
        program = ofParts sections.residue applications := by
  have hany : ¬sections.residue.any Token.isArgument = true ↔ ∀ t ∈ sections.residue, t.isArgument = false := by simp
  rw [ofTokens_tokens hfree]
  simp only [bind_eq_ok_iff, unless_eq_ok_iff, foldlM_define_ofEntry_eq_ok_iff, hany]
  constructor
  · rintro ⟨_, ⟨applications, hintroduce, rfl⟩, hargument, hset⟩
    rw [setEntry_ofParts _ hintroduce] at hset
    exact ⟨applications, hintroduce, hargument, (Except.ok.inj hset).symm⟩
  · rintro ⟨applications, hintroduce, hargument, rfl⟩
    refine ⟨ofParts [] applications, ⟨applications, hintroduce, rfl⟩, hargument, ?_⟩
    rw [setEntry_ofParts _ hintroduce]
    rfl

end Program

/-- The first thing that is wrong with the definitions of a stream, in order, and after them with its residue. -/
inductive Sections.Refused (sections : Sections) : Error → Prop where
  | definition {before after : List (List Token)} {inside : List Token} {applications : List (String × List Token)}
      {error : Error} (hsplit : sections.insides = before ++ inside :: after)
      (hbefore : Definition.Introduce before applications)
      (hinside : Definition.Faulty (applications.map Prod.fst) inside error) : Refused sections error
  | argument {applications : List (String × List Token)} {t : Token}
      (hall : Definition.Introduce sections.insides applications) (hmem : t ∈ sections.residue)
      (hargument : t.isArgument = true) : Refused sections .argumentOutsideApplication

namespace Program
open Definition

variable {program : Program} {insides : List (List Token)} {error : Error}

theorem faulty_ofParts_iff {inside entry : List Token} {applications : List (String × List Token)} :
    Faulty (ofParts entry applications).names inside error ↔ Faulty (applications.map Prod.fst) inside error := by
  refine faulty_congr fun name hfree => ?_
  have hne : name ≠ entryName := fun heq => hfree (.inl heq)
  simp [names_ofParts, hne]

theorem foldlM_define_ofEntry_eq_error_iff {entry : List Token} :
    insides.foldlM define (ofEntry entry) = .error error ↔
      ∃ before inside after applications, insides = before ++ inside :: after ∧ Introduce before applications ∧
        Faulty (applications.map Prod.fst) inside error := by
  rw [foldlM_eq_error_iff]
  constructor
  · rintro ⟨before, inside, after, next, hinsides, hbefore, hinside⟩
    obtain ⟨applications, hintroduce, rfl⟩ := foldlM_define_ofEntry_eq_ok_iff.1 hbefore
    exact ⟨before, inside, after, applications, hinsides, hintroduce, faulty_ofParts_iff.1 (define_eq_error_iff.1 hinside)⟩
  · rintro ⟨before, inside, after, applications, hinsides, hintroduce, hfaulty⟩
    exact ⟨before, inside, after, ofParts entry applications, hinsides,
      foldlM_define_ofEntry_eq_ok_iff.2 ⟨applications, hintroduce, rfl⟩,
      define_eq_error_iff.2 (faulty_ofParts_iff.2 hfaulty)⟩

theorem ofTokens_eq_error_iff {sections : Sections} (hfree : sections.Free) :
    ofTokens sections.tokens = .error error ↔ sections.Refused error := by
  rw [ofTokens_tokens hfree]
  simp only [bind_eq_error_iff, unless_eq_error_iff, foldlM_define_ofEntry_eq_ok_iff, foldlM_define_ofEntry_eq_error_iff,
    List.any_eq_true]
  constructor
  · rintro (⟨before, inside, after, applications, hsplit, hbefore, hinside⟩ |
      ⟨_, ⟨applications, hintroduce, rfl⟩, ⟨⟨t, hmem, ht⟩, rfl⟩ | ⟨-, hset⟩⟩)
    · exact .definition hsplit hbefore hinside
    · exact .argument hintroduce hmem ht
    · cases hset
  · intro h
    cases h with
    | definition hsplit hbefore hinside => exact .inl ⟨_, _, _, _, hsplit, hbefore, hinside⟩
    | argument hintroduce hmem ht => exact .inr ⟨_, ⟨_, hintroduce, rfl⟩, .inl ⟨⟨_, hmem, ht⟩, rfl⟩⟩

end Program

/-! ## Well-nested streams -/

theorem Closes.map_bindParameter {openings : List Bracket} {tokens : List Token} (h : Closes openings tokens) :
    Closes openings (tokens.map Token.bindParameter) := by
  induction h with
  | nil => exact .nil
  | @plain openings t tokens isPlain _ ih =>
    refine .plain ?_ ih
    cases t with
    | opening kind => cases isPlain
    | closing kind => cases isPlain
    | _ => rfl
  | opening isBody _ ih => exact .opening isBody ih
  | closing _ ih => exact .closing ih

/-- A body on its own: its brackets nest, none of them is a brace, and its argument is bound. -/
structure IsBody (body : List Token) : Prop where
  nested : checkBrackets body = .ok ()
  free : ∀ t ∈ body, t.isBrace = false
  bound : .placeholder ∉ body

theorem isBody_of_closes {body : List Token} (h : Closes [] body) (hbound : .placeholder ∉ body) : IsBody body :=
  ⟨(closes_iff.1 h).1, h.isBrace_eq_false List.not_mem_nil, hbound⟩

theorem closes_of_isBody {body : List Token} (h : IsBody body) : Closes [] body :=
  closes_iff.2 ⟨h.nested, fun hmem => by cases h.free _ hmem⟩

namespace Program
open Definition

variable {insides : List (List Token)}

theorem mem_insides_of_introduce {name : String} {body : List Token} {applications : List (String × List Token)}
    (h : Introduce insides applications) (hmem : (name, body) ∈ applications) : .identifier name :: body ∈ insides := by
  rw [h.insides_eq]
  exact List.mem_map.2 ⟨(name, body), hmem, rfl⟩

theorem isBody_of_closed {sections : Sections} {applications : List (String × List Token)} (hclosed : sections.Closed [])
    (hintroduce : Introduce sections.insides applications) (hargument : ∀ t ∈ sections.residue, t.isArgument = false) :
    ∀ body ∈ (ofParts sections.residue applications).bodies.map Prod.snd, IsBody body := by
  intro body hbody
  rcases List.mem_cons.1 hbody with rfl | hbody
  · exact isBody_of_closes hclosed.residue fun hmem => by cases hargument _ hmem
  · rw [List.map_map] at hbody
    obtain ⟨⟨name, written⟩, hmem, rfl⟩ := List.mem_map.1 hbody
    have hinside := mem_insides_of_introduce hintroduce hmem
    refine isBody_of_closes (Closes.map_bindParameter ?_) fun hplaceholder => ?_
    · cases hclosed.inside _ hinside with
      | plain _ hrest => exact hrest
    · obtain ⟨t, -, ht⟩ := List.mem_map.1 hplaceholder
      exact Token.bindParameter_ne_placeholder t ht

/-- A well-nested stream is cut at its definitions in one way. It has a program just when the definitions introduce applications
and no argument stands outside of them. The applications are then those, in order, and the entry point is what is left, each
of them a body on its own; otherwise the stream is refused for the first thing that is wrong. -/
theorem ofTokens_of_checkBrackets {tokens : List Token} (h : checkBrackets tokens = .ok ()) :
    ∃ sections : Sections,
      (sections.tokens = tokens ∧ sections.Free) ∧
      (∀ other : Sections, other.tokens = tokens → other.Free → other = sections) ∧
      ((∃ program, ofTokens tokens = .ok program) ↔
        (∃ applications, Introduce sections.insides applications) ∧ ∀ t ∈ sections.residue, t.isArgument = false) ∧
      (∀ program applications, ofTokens tokens = .ok program → Introduce sections.insides applications →
        program.applications = applications.map bound ∧ program.entry = sections.residue ∧
          IsBody program.entry ∧ ∀ application ∈ program.applications, IsBody application.2) ∧
      ∀ error, ofTokens tokens = .error error ↔ sections.Refused error := by
  obtain ⟨sections, rfl, hclosed⟩ := Sections.exists_of_checkBrackets h
  have hfree := Sections.free_of_closed List.not_mem_nil hclosed
  refine ⟨sections, ⟨rfl, hfree⟩, fun other htokens hother => Sections.eq_of_tokens_eq hother hfree htokens, ?_, ?_, ?_⟩
  · constructor
    · rintro ⟨program, hprogram⟩
      obtain ⟨applications, hintroduce, hargument, -⟩ := (ofTokens_eq_ok_iff hfree).1 hprogram
      exact ⟨⟨applications, hintroduce⟩, hargument⟩
    · rintro ⟨⟨applications, hintroduce⟩, hargument⟩
      exact ⟨_, (ofTokens_eq_ok_iff hfree).2 ⟨applications, hintroduce, hargument, rfl⟩⟩
  · intro program applications hprogram hintroduce
    obtain ⟨applications', hintroduce', hargument, rfl⟩ := (ofTokens_eq_ok_iff hfree).1 hprogram
    obtain rfl := introduce_unique hintroduce hintroduce'
    have hbodies := isBody_of_closed hclosed hintroduce hargument
    obtain ⟨hentry, happlications⟩ := List.forall_mem_cons.1 hbodies
    refine ⟨applications_ofParts hintroduce, entry_ofParts, hentry, fun application hmem => ?_⟩
    rw [applications_ofParts hintroduce] at hmem
    exact happlications _ (List.mem_map_of_mem hmem)
  · exact fun error => ofTokens_eq_error_iff hfree

/-- `{inc [$ +]} [0 inc]` has one application and an entry point that calls it. -/
theorem ofTokens_of_checkBrackets_of_call :
    ∃ program,
      ofTokens [.opening .definition, .identifier "inc", .opening .applicator, .placeholder, .builtin .increment,
        .closing .applicator, .closing .definition, .opening .applicator, .literal 0, .identifier "inc",
        .closing .applicator] = .ok program ∧
      program.applications = [("inc", [.opening .applicator, .parameter, .builtin .increment, .closing .applicator])] ∧
      program.entry = [.opening .applicator, .literal 0, .identifier "inc", .closing .applicator] := by
  obtain ⟨sections, -, hunique, hiff, hok, -⟩ := ofTokens_of_checkBrackets (show checkBrackets
    [.opening .definition, .identifier "inc", .opening .applicator, .placeholder, .builtin .increment,
      .closing .applicator, .closing .definition, .opening .applicator, .literal 0, .identifier "inc",
      .closing .applicator] = .ok () from rfl)
  obtain rfl := hunique
    ⟨[], [([.identifier "inc", .opening .applicator, .placeholder, .builtin .increment, .closing .applicator],
      [.opening .applicator, .literal 0, .identifier "inc", .closing .applicator])]⟩ rfl
    ⟨by decide, by decide, by decide⟩
  have hintroduce : Introduce [[.identifier "inc", .opening .applicator, .placeholder, .builtin .increment,
      .closing .applicator]] [("inc", [.opening .applicator, .placeholder, .builtin .increment, .closing .applicator])] :=
    introduce_cons_iff.2 ⟨checkName_eq_ok_iff.1 rfl, nofun, introduce_nil⟩
  obtain ⟨program, hprogram⟩ := hiff.2 ⟨⟨_, hintroduce⟩, by decide⟩
  obtain ⟨happlications, hentry, -⟩ := hok program _ hprogram hintroduce
  exact ⟨program, hprogram, happlications, hentry⟩

end Program

end Bracketry
