import Bracketry.Proofs.Program.Interchange

/-!
# The tables that are accepted

A text in interchange form passes several checks, each with a scope of its own: the strings of all lists, the names of the table,
and then one entry after another.

* `Program.Acceptable`, `Program.EntryFault` : what an entry must have, and its first fault if it has not;
  `checkBody_eq_ok_iff_acceptable` and `checkBody_eq_error_iff` say that this is what the check of a body decides;
* `Program.Tokenised` : the entries of a table with tokens for their strings;
* `Program.Refused` : the first fault of a whole table;
* `Program.ofJson_of_isTable` : which texts are accepted and as what, and why every other one is refused.
-/

namespace Bracketry.Program
open Definition

variable {name : String} {body : List Token}

/-! ## One entry -/

structure Acceptable (name : String) (body : List Token) : Prop where
  allowed : name ≠ entryName → IsName name ∧ ¬IsReserved name
  nested : checkBrackets body = .ok ()
  free : ∀ t ∈ body, t.isBrace = false
  closed : name = entryName → ∀ t ∈ body, t.isArgument = false

/-- The first fault of an entry: its name, then its brackets, then a definition in it, then an argument at the entry point. -/
inductive EntryFault (name : String) (body : List Token) : Error → Prop
  | misspelt (hother : name ≠ entryName) (h : ¬IsName name) : EntryFault name body (.invalidName name)
  | reserved (hother : name ≠ entryName) (hname : IsName name) (h : IsReserved name) : EntryFault name body (.reservedName name)
  | brackets {fault : BracketFault} (hname : name ≠ entryName → IsName name ∧ ¬IsReserved name)
      (h : checkBrackets body = .error fault) : EntryFault name body (.brackets fault)
  | definition {t : Token} (hname : name ≠ entryName → IsName name ∧ ¬IsReserved name) (hnested : checkBrackets body = .ok ())
      (hmem : t ∈ body) (h : t.isBrace = true) : EntryFault name body (.brackets .nestedDefinition)
  | argument {t : Token} (hentry : name = entryName) (hnested : checkBrackets body = .ok ())
      (hfree : ∀ t ∈ body, t.isBrace = false) (hmem : t ∈ body) (h : t.isArgument = true) :
      EntryFault name body .argumentOutsideApplication

theorem free_iff (hnested : checkBrackets body = .ok ()) :
    .opening .definition ∉ body ↔ ∀ t ∈ body, t.isBrace = false := by
  constructor
  · exact fun hfree => (closes_iff.2 ⟨hnested, hfree⟩).isBrace_eq_false List.not_mem_nil
  · intro hfree hmem
    cases hfree _ hmem

theorem checkBody_eq_ok_iff_acceptable {result : List Token} :
    checkBody name body = .ok result ↔ Acceptable name body ∧ result = body.map Token.bindParameter := by
  rw [checkBody_eq_ok_iff, closes_iff]
  constructor
  · rintro ⟨hname, ⟨hnested, hfree⟩, hargument, rfl⟩
    exact ⟨⟨fun hother => checkName_eq_ok_iff.1 (hname hother), hnested, (free_iff hnested).1 hfree, hargument⟩, rfl⟩
  · rintro ⟨⟨hname, hnested, hfree, hargument⟩, rfl⟩
    exact ⟨fun hother => checkName_eq_ok_iff.2 (hname hother), ⟨hnested, (free_iff hnested).2 hfree⟩, hargument, rfl⟩

theorem checkBody_eq_error_iff {error : Error} : checkBody name body = .error error ↔ EntryFault name body error := by
  have hbrace : body.contains (.opening .definition) = true ↔ .opening .definition ∈ body := List.contains_iff_mem
  have hargument : (name == entryName && body.any Token.isArgument) = true ↔
      name = entryName ∧ ∃ t ∈ body, t.isArgument = true := by simp
  have hname : (name != entryName) = true ↔ name ≠ entryName := bne_iff_ne
  rw [checkBody, when_eq_error_iff]
  simp only [bind_eq_error_iff, mapError_eq_error_iff, mapError_eq_ok_iff, unless_eq_error_iff, checkName_eq_error_iff,
    checkName_eq_ok_iff, hbrace, hargument, hname]
  constructor
  · rintro (⟨hother, ⟨h, rfl⟩ | ⟨hname, h, rfl⟩⟩ |
      ⟨hname, ⟨fault, h, rfl⟩ | ⟨_, hnested, ⟨hmem, rfl⟩ | ⟨hfree, ⟨⟨hentry, t, hmem, h⟩, rfl⟩ | ⟨-, h⟩⟩⟩⟩)
    · exact .misspelt hother h
    · exact .reserved hother hname h
    · exact .brackets hname h
    · exact .definition hname hnested hmem rfl
    · exact .argument hentry hnested ((free_iff hnested).1 hfree) hmem h
    · cases h
  · rintro (⟨hother, h⟩ | ⟨hother, hname, h⟩ | ⟨hname, h⟩ | ⟨hname, hnested, hmem, h⟩ | ⟨hentry, hnested, hfree, hmem, h⟩)
    · exact .inl ⟨hother, .inl ⟨h, rfl⟩⟩
    · exact .inl ⟨hother, .inr ⟨hname, h, rfl⟩⟩
    · exact .inr ⟨hname, .inl ⟨_, h, rfl⟩⟩
    · refine .inr ⟨hname, .inr ⟨(), hnested, .inl ⟨?_, rfl⟩⟩⟩
      by_contra hfree
      cases h.symm.trans ((free_iff hnested).1 hfree _ hmem)
    · refine .inr ⟨fun hother => absurd hentry hother, .inr ⟨(), hnested, .inr ⟨(free_iff hnested).2 hfree, .inl ⟨?_, rfl⟩⟩⟩⟩
      exact ⟨hentry, _, hmem, h⟩

/-! ## All entries -/

variable {bodies results : List (String × List Token)} {error : Error}

theorem checkBodies_eq_ok_iff_acceptable :
    checkBodies bodies = .ok results ↔ (∀ named ∈ bodies, Acceptable named.1 named.2) ∧ results = bodies.map bound := by
  simp only [checkBodies_eq_ok_iff, checkBody_eq_ok_iff_acceptable, exists_and_left, exists_eq, and_true]

/-- The first entry with a fault decides. -/
theorem checkBodies_eq_error_iff :
    checkBodies bodies = .error error ↔ ∃ before named after, bodies = before ++ named :: after ∧
      (∀ other ∈ before, Acceptable other.1 other.2) ∧ EntryFault named.1 named.2 error := by
  have hok : ∀ named : String × List Token,
      (∃ checked, (return (named.1, ← checkBody named.1 named.2) : Except Error _) = .ok checked) ↔
        Acceptable named.1 named.2 := by
    intro named
    simp only [checkNamed_eq_ok_iff, checkBody_eq_ok_iff_acceptable]
    exact ⟨fun ⟨_, ⟨h, _⟩, _⟩ => h, fun h => ⟨bound named, ⟨h, rfl⟩, rfl⟩⟩
  have herror : ∀ named : String × List Token,
      (return (named.1, ← checkBody named.1 named.2) : Except Error (String × List Token)) = .error error ↔
        EntryFault named.1 named.2 error := by
    intro named
    rw [bind_pure_eq_error_iff, checkBody_eq_error_iff]
  rw [checkBodies, mapM_eq_error_iff]
  simp only [hok, herror]

/-! ## The strings of a table -/

variable {members : List (String × List String)}

/-- The entries have the names of the members, and for every string the token that it is the text of. -/
def Tokenised (members : List (String × List String)) (bodies : List (String × List Token)) : Prop :=
  List.Forall₂ (fun member named => member.1 = named.1 ∧ List.Forall₂ (fun word t => Token.ofWord word = .ok t) member.2 named.2)
    members bodies

theorem mapM_tokenOf_eq_ok_iff {words : List String} {tokens : List Token} :
    words.mapM Json.tokenOf = .ok tokens ↔ List.Forall₂ (fun word t => Token.ofWord word = .ok t) words tokens := by
  have hword : (fun word t => Json.tokenOf word = .ok t) = fun word t => Token.ofWord word = .ok t :=
    funext₂ fun word t => propext mapError_eq_ok_iff
  rw [mapM_eq_ok_iff, hword]

theorem mapM_tokensOf_eq_ok_iff : members.mapM Json.tokensOf = .ok bodies ↔ Tokenised members bodies := by
  have hmember : (fun (member : String × List String) (named : String × List Token) => Json.tokensOf member = .ok named) =
      fun member named => member.1 = named.1 ∧ List.Forall₂ (fun word t => Token.ofWord word = .ok t) member.2 named.2 := by
    funext member named
    rw [← mapM_tokenOf_eq_ok_iff, Json.tokensOf]
    cases member.2.mapM Json.tokenOf with
    | error fault => simp [Except.map]
    | ok tokens => simp [Except.map, Prod.ext_iff]
  rw [mapM_eq_ok_iff, hmember]
  rfl

/-- The strings are looked at in the order of the text, whichever list they stand in. -/
theorem mapM_tokensOf_eq_error_iff {fault : InterchangeFault} :
    members.mapM Json.tokensOf = .error fault ↔ (members.flatMap Prod.snd).mapM Json.tokenOf = .error fault := by
  induction members with
  | nil => exact ⟨nofun, nofun⟩
  | cons member members ih =>
    rw [List.mapM_cons, List.flatMap_cons, List.mapM_append, bind_eq_error_iff, bind_eq_error_iff]
    simp only [bind_pure_eq_error_iff, ih, Json.tokensOf]
    cases member.2.mapM Json.tokenOf <;> simp [Except.map]

theorem names_eq_of_tokenised (h : Tokenised members bodies) : bodies.map Prod.fst = members.map Prod.fst := by
  induction h with
  | nil => rfl
  | cons hfirst _ ih => rw [List.map_cons, List.map_cons, hfirst.1, ih]

/-! ## Whole tables -/

/-- The first fault of a table: a string that is no token, then the missing entry point, then the first entry with a fault. -/
inductive Refused (members : List (String × List String)) : Error → Prop
  | rejected {before after : List String} {word : String} {fault : WordFault}
      (hwords : members.flatMap Prod.snd = before ++ word :: after) (hbefore : ∀ other ∈ before, ∃ t, Token.ofWord other = .ok t)
      (hword : Token.ofWord word = .error fault) : Refused members (.interchange (.rejected fault))
  | entryMissing {bodies : List (String × List Token)} (htokens : Tokenised members bodies)
      (hentry : entryName ∉ members.map Prod.fst) : Refused members (.structural .entryMissing)
  | entry {before after : List (String × List Token)} {named : String × List Token} {error : Error}
      (htokens : Tokenised members (before ++ named :: after)) (hentry : entryName ∈ members.map Prod.fst)
      (hbefore : ∀ other ∈ before, Acceptable other.1 other.2) (hfault : EntryFault named.1 named.2 error) : Refused members error

theorem ofJson_eq_error_iff {json : String} :
    ofJson json = .error error ↔
      (∃ fault, Json.readTable json.toList = .error fault ∧ error = .interchange fault) ∨
      ∃ members, Json.readTable json.toList = .ok members ∧
        (entryName ∉ (ofMembers members).names ∧ error = .structural .entryMissing ∨
          entryName ∈ (ofMembers members).names ∧ checkBodies (ofMembers members).bodies = .error error) := by
  have hentry : ∀ members, (!(ofMembers members).contains entryName) = true ↔ entryName ∉ (ofMembers members).names := by
    simp [← contains_iff]
  unfold ofJson
  rw [bind_eq_error_iff]
  simp only [bind_pure_eq_error_iff, mapError_eq_error_iff, mapError_eq_ok_iff, unless_eq_error_iff, hentry, not_not]
  rfl

/-- However an object of lists of strings with distinct names is written: it is accepted if every string is a token, the entry
point is there and every entry is acceptable, and otherwise refused for its first fault. -/
theorem ofJson_of_isTable {json : String} (htable : Json.IsTable members json.toList) (hdistinct : (members.map Prod.fst).Nodup) :
    (∀ program, ofJson json = .ok program ↔ ∃ bodies, Tokenised members bodies ∧ entryName ∈ members.map Prod.fst ∧
      (∀ named ∈ bodies, Acceptable named.1 named.2) ∧ program.bodies = bodies.map bound) ∧
    ∀ error, ofJson json = .error error ↔ Refused members error := by
  have hread := Json.readTable_of_isTable htable
  -- distinct names are all kept, in the order of the text
  have hbodies : ∀ {bodies}, Tokenised members bodies →
      ofMembers bodies = ⟨bodies⟩ ∧ names ⟨bodies⟩ = members.map Prod.fst := fun {bodies} htokens => by
    have hnames : names ⟨bodies⟩ = members.map Prod.fst := names_eq_of_tokenised htokens
    exact ⟨@ofMembers_bodies ⟨bodies⟩ (hnames ▸ hdistinct), hnames⟩
  refine ⟨fun program => ?_, fun error => ?_⟩
  · rw [ofJson_eq_ok_iff, hread]
    refine exists_congr fun bodies => ?_
    rw [mapM_tokensOf_eq_ok_iff]
    refine and_congr_right fun htokens => ?_
    obtain ⟨hprogram, hnames⟩ := hbodies htokens
    rw [hprogram, hnames, checkBodies_eq_ok_iff_acceptable]
  · rw [ofJson_eq_error_iff, hread]
    constructor
    · rintro (⟨fault, hfault, rfl⟩ | ⟨bodies, htokens, hchecked⟩)
      · obtain ⟨before, word, after, hwords, hbefore, hword⟩ := mapM_eq_error_iff.1 (mapM_tokensOf_eq_error_iff.1 hfault)
        obtain ⟨other, hother, rfl⟩ := mapError_eq_error_iff.1 hword
        exact .rejected hwords (fun word hmem => (hbefore word hmem).imp fun t => mapError_eq_ok_iff.1) hother
      · rw [mapM_tokensOf_eq_ok_iff] at htokens
        obtain ⟨hprogram, hnames⟩ := hbodies htokens
        rw [hprogram, hnames] at hchecked
        rcases hchecked with ⟨hentry, rfl⟩ | ⟨hentry, hchecked⟩
        · exact .entryMissing htokens hentry
        · obtain ⟨before, named, after, rfl, hbefore, hfault⟩ := checkBodies_eq_error_iff.1 hchecked
          exact .entry htokens hentry hbefore hfault
    · rintro (⟨hwords, hbefore, hword⟩ | ⟨htokens, hentry⟩ | ⟨htokens, hentry, hbefore, hfault⟩)
      · refine .inl ⟨_, mapM_tokensOf_eq_error_iff.2 (mapM_eq_error_iff.2 ⟨_, _, _, hwords, fun other hmem => ?_, ?_⟩), rfl⟩
        · exact (hbefore other hmem).imp fun t => mapError_eq_ok_iff.2
        · exact mapError_eq_error_iff.2 ⟨_, hword, rfl⟩
      · obtain ⟨hprogram, hnames⟩ := hbodies htokens
        refine .inr ⟨_, mapM_tokensOf_eq_ok_iff.2 htokens, .inl ⟨?_, rfl⟩⟩
        rwa [hprogram, hnames]
      · obtain ⟨hprogram, hnames⟩ := hbodies htokens
        refine .inr ⟨_, mapM_tokensOf_eq_ok_iff.2 htokens, .inr ⟨?_, ?_⟩⟩
        · rwa [hprogram, hnames]
        · rw [hprogram]
          exact checkBodies_eq_error_iff.2 ⟨_, _, _, rfl, hbefore, hfault⟩

/-- Space, an escaped dollar sign and a list without strings. -/
theorem ofJson_of_isTable_of_escape :
    Json.IsTable [("f", ["$"]), ("main", [])] "\x7b \"f\" :[\"\\u0024\"],\"main\": [ ]\x7d".toList ∧
      ofJson "\x7b \"f\" :[\"\\u0024\"],\"main\": [ ]\x7d" = .ok ⟨[("f", [.parameter]), ("main", [])]⟩ := by
  have hspace : Json.IsSpacing [' '] := Json.isSpacing_space Json.isSpacing_nil
  have hletter : ∀ c, c ∈ ['f', 'm', 'a', 'i', 'n'] → Json.Spells c [c] := fun c hc => by
    have hplain : ∀ c ∈ ['f', 'm', 'a', 'i', 'n'], c ≠ '"' ∧ c ≠ '\\' ∧ 0x20 ≤ c.toNat := by simp
    obtain ⟨hquote, hbackslash, hcontrol⟩ := hplain c hc
    exact .plain hquote hbackslash hcontrol
  have hdollar : Json.Spells '$' ['\\', 'u', '0', '0', '2', '4'] := by
    have hzero : Json.HexDigit '0' 0 := ⟨by decide, .inl rfl⟩
    have htwo : Json.HexDigit '2' 2 := ⟨by decide, .inl rfl⟩
    have hfour : Json.HexDigit '4' 4 := ⟨by decide, .inl rfl⟩
    exact .unit (Json.Hex.digits hzero hzero htwo hfour)
  have hf : Json.IsMember ("f", ["$"]) "\"f\" :[\"\\u0024\"]".toList := by
    have hname : Json.Quoted "f" "\"f\"".toList := ⟨_, .cons (hletter 'f' (by decide)) .nil, rfl⟩
    have hword : Json.Quoted "$" "\"\\u0024\"".toList := ⟨_, .cons hdollar .nil, rfl⟩
    exact ⟨_, [' '], [], _, hname, hspace, Json.isSpacing_nil,
      .items (.last ⟨[], _, [], Json.isSpacing_nil, hword, Json.isSpacing_nil, rfl⟩), rfl⟩
  have hmain : Json.IsMember ("main", []) "\"main\": [ ]".toList := by
    have hname : Json.Quoted "main" "\"main\"".toList :=
      ⟨_, .cons (hletter 'm' (by decide)) (.cons (hletter 'a' (by decide)) (.cons (hletter 'i' (by decide))
        (.cons (hletter 'n' (by decide)) .nil))), rfl⟩
    exact ⟨_, [], [' '], _, hname, Json.isSpacing_nil, hspace, .empty hspace, rfl⟩
  have htable : Json.IsTable [("f", ["$"]), ("main", [])] "\x7b \"f\" :[\"\\u0024\"],\"main\": [ ]\x7d".toList :=
    ⟨[], _, [], Json.isSpacing_nil, Json.isSpacing_nil,
      .items (.next ⟨[' '], _, [], hspace, hf, Json.isSpacing_nil, rfl⟩
        (.last ⟨[], _, [], Json.isSpacing_nil, hmain, Json.isSpacing_nil, rfl⟩)), rfl⟩
  have htokens : Tokenised [("f", ["$"]), ("main", [])] [("f", [.placeholder]), ("main", [])] :=
    .cons ⟨rfl, .cons rfl .nil⟩ (.cons ⟨rfl, .nil⟩ .nil)
  have hf' : Acceptable "f" [.placeholder] :=
    ⟨fun _ => checkName_eq_ok_iff.1 rfl, rfl, by decide, fun h => absurd h (by decide)⟩
  have hmain' : Acceptable "main" [] := ⟨fun h => absurd rfl h, rfl, nofun, nofun⟩
  obtain ⟨haccepted, -⟩ := ofJson_of_isTable htable (by decide)
  exact ⟨htable, (haccepted _).2 ⟨_, htokens, by decide, List.forall_mem_cons.2 ⟨hf', List.forall_mem_cons.2 ⟨hmain', nofun⟩⟩, rfl⟩⟩

end Bracketry.Program
