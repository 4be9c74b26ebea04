import Bracketry.Proofs.Program.Acceptance
import Bracketry.Proofs.Token.Classes

/-!
# Programs in the making

A program is built up step by step: it gets an entry point, applications one by one, another entry point, and it may be written in
interchange form and read again in between. What it then holds is what was recorded of the steps that did not fail.

* `ofWord_of_checkName` : a name that an application may have is a bare word;
* `Program.Edit`, `Program.after`, `Program.succeeding` : the steps, a program after one of them, and those that do not fail;
* `Program.Ledger` : an entry point and a list of applications; `Program.Ledger.note` writes a step down;
* `Program.Records` : the program holds what the ledger says, and no more; `Program.records_apply` is that a step which does not fail
  keeps this, `Program.records_after` the same for any number of steps, failing ones among them;
* `Program.edited_records` : the entry point, the applications and the names of a program that was built up in any steps.
-/

namespace Bracketry

/-! ## Names and words -/

theorem isNameChar_of_isDigit {c : Char} (h : c.isDigit = true) : isNameChar c = false := by
  have hall : Numeral.decimals.all (fun c => !isNameChar c) = true := by decide
  simpa using List.all_eq_true.1 hall c (Numeral.mem_decimals_of_isDigit h)

theorem not_starts_of_isName {name : String} (h : IsName name) : ¬Numeral.Starts name.toList := by
  rintro ⟨sign, hsign, c, rest, hname, hc⟩
  have hchars : ∀ d ∈ sign ++ c :: rest, isNameChar d = true := hname ▸ h.2
  have hdigit : isNameChar c = true := hchars c (by simp)
  cases hdigit.symm.trans (isNameChar_of_isDigit hc)

/-- The tokens with one spelling have no name for it, or one that is reserved. -/
theorem text_ne_of_isFixed {name : String} (hname : IsName name) (hfree : ¬IsReserved name) :
    ∀ t : Token, t.IsFixed → t.text ≠ name := by
  rintro t ht rfl
  have hfixed : ∀ t ∈ Token.fixed, t.text.toList.all isNameChar = false ∨ ∃ op ∈ Builtin.all, op.symbol = t.text := by decide
  obtain hchars | ⟨op, -, hop⟩ := hfixed t (Token.mem_fixed_iff.2 ht)
  · cases (List.all_eq_true.2 hname.2).symm.trans hchars
  · exact hfree (.inr ⟨op, hop⟩)

theorem ofWord_of_checkName {name : String} (h : checkName name = .ok ()) : Token.ofWord name = .ok (.identifier name) := by
  obtain ⟨hname, hfree⟩ := checkName_eq_ok_iff.1 h
  exact Token.ofWord_eq_iff_class.2
    (.identifier hname.1 (not_starts_of_isName hname) (text_ne_of_isFixed hname hfree))

namespace Program
open Definition

variable {program edited : Program} {name : String} {body : List Token}

/-! ## Steps -/

inductive Edit where
  /-- A program that has only this entry point takes the place of the program. -/
  | start (entry : List Token)
  | insert (name : String) (body : List Token)
  | setEntry (entry : List Token)
  /-- The program is written in interchange form and read again. -/
  | reload
deriving DecidableEq, Repr

namespace Edit

def apply (program : Program) : Edit → Except Error Program
  | start entry => .ok (ofEntry entry)
  | insert name body => program.insert name body
  | setEntry entry => .ok (program.setEntry entry)
  | reload => ofJson program.toJson

def tokens : Edit → List Token
  | start entry | setEntry entry => entry
  | insert _ body => body
  | reload => []

end Edit

/-- The program after a step. A step that fails leaves it as it was. -/
def after (program : Program) (edit : Edit) : Program :=
  match edit.apply program with
  | .ok edited => edited
  | .error _ => program

def succeeding (program : Program) : List Edit → List Edit
  | [] => []
  | edit :: edits =>
    match edit.apply program with
    | .ok edited => edit :: succeeding edited edits
    | .error _ => succeeding program edits

/-! ## Records -/

/-- What was recorded of some steps: the body of the entry point, and the names and bodies of the applications. -/
structure Ledger where
  entry : List Token
  applications : List (String × List Token)

/-- Writes a step down. What was given for a new application is added at the end; what is there is never dropped but by a new start, and
reading it again binds the arguments in it. -/
def Ledger.note (ledger : Ledger) : Edit → Ledger
  | .start entry => ⟨entry, []⟩
  | .insert name body => { ledger with applications := ledger.applications ++ [(name, body)] }
  | .setEntry entry => { ledger with entry }
  | .reload => { ledger with applications := ledger.applications.map bound }

/-- The program has the entry point of the ledger, once, and the applications of the ledger in their order. -/
structure Records (program : Program) (ledger : Ledger) : Prop where
  entry : program.bodies.filter (·.1 == entryName) = [(entryName, ledger.entry)]
  applications : program.applications = ledger.applications
  distinct : program.names.Nodup
  allowed : ∀ name ∈ ledger.applications.map Prod.fst, checkName name = .ok ()
  legible : Json.Legible program.bodies

namespace Records

variable {ledger : Ledger}

theorem mem_bodies (h : program.Records ledger) : (entryName, ledger.entry) ∈ program.bodies := by
  have hmem : (entryName, ledger.entry) ∈ program.bodies.filter (·.1 == entryName) := h.entry ▸ List.mem_cons_self
  exact (List.mem_filter.1 hmem).1

theorem mem_names (h : program.Records ledger) : entryName ∈ program.names := List.mem_map_of_mem h.mem_bodies

theorem entry_eq (h : program.Records ledger) : program.entry = ledger.entry := by
  rw [Program.entry, (body?_eq_some_iff h.distinct).2 h.mem_bodies]
  rfl

theorem nodup_applications (h : program.Records ledger) : (ledger.applications.map Prod.fst).Nodup := by
  rw [← h.applications]
  exact h.distinct.sublist (List.filter_sublist.map Prod.fst)

theorem mem_names_iff (h : program.Records ledger) :
    name ∈ program.names ↔ name = entryName ∨ name ∈ ledger.applications.map Prod.fst := by
  rw [← h.applications]
  constructor
  · intro hname
    obtain ⟨named, hnamed, rfl⟩ := List.mem_map.1 hname
    by_cases heq : named.1 = entryName
    · exact .inl heq
    · exact .inr (List.mem_map_of_mem (List.mem_filter.2 ⟨hnamed, by simpa using heq⟩))
  · rintro (rfl | hname)
    · exact h.mem_names
    · obtain ⟨named, hnamed, rfl⟩ := List.mem_map.1 hname
      exact List.mem_map_of_mem (List.mem_filter.1 hnamed).1

theorem isApplication_iff_mem (h : program.Records ledger) :
    program.isApplication name = true ↔ name ∈ ledger.applications.map Prod.fst := by
  rw [isApplication, Bool.and_eq_true, bne_iff_ne, contains_iff, h.mem_names_iff]
  constructor
  · rintro ⟨hother, hname⟩
    exact hname.resolve_left hother
  · intro hname
    refine ⟨?_, .inr hname⟩
    rintro rfl
    cases h.allowed entryName hname

end Records

/-! ## One step -/

variable {ledger : Ledger}

theorem records_ofEntry {entry : List Token} (h : ∀ t ∈ entry, t.IsLegible) : (ofEntry entry).Records ⟨entry, []⟩ where
  entry := by simp [ofEntry]
  applications := by simp [Program.applications, ofEntry]
  distinct := List.nodup_cons.2 ⟨List.not_mem_nil, List.nodup_nil⟩
  allowed := nofun
  legible := List.forall_mem_cons.2 ⟨h, nofun⟩

theorem records_insert (h : program.Records ledger) (hbody : ∀ t ∈ body, t.IsLegible)
    (hinsert : program.insert name body = .ok edited) :
    edited.Records { ledger with applications := ledger.applications ++ [(name, body)] } := by
  obtain ⟨hallowed, hnew, rfl⟩ := insert_eq_ok_iff.1 hinsert
  have hother : name ≠ entryName := fun heq => (checkName_eq_ok_iff.1 hallowed).2 (.inl heq)
  refine ⟨?_, ?_, ?_, ?_, ?_⟩
  · simp [List.filter_append, h.entry, hother]
  · have happlications := h.applications
    unfold Program.applications at happlications ⊢
    simp [List.filter_append, happlications, hother]
  · rw [← set_of_not_contains body (contains_eq_false_iff.2 hnew)]
    exact nodup_names_set h.distinct
  · intro other hmem
    rw [List.map_append, List.mem_append] at hmem
    obtain hold | hname := hmem
    · exact h.allowed other hold
    · rwa [List.mem_singleton.1 hname]
  · intro named hnamed
    obtain hold | hname := List.mem_append.1 hnamed
    · exact h.legible named hold
    · rwa [List.mem_singleton.1 hname]

/-- What keeps the names keeps which bodies have a name. -/
theorem filter_map_of_fst {replace : String × List Token → String × List Token} (h : ∀ named, (replace named).1 = named.1)
    (p : String → Bool) (bodies : List (String × List Token)) :
    (bodies.map replace).filter (fun named => p named.1) = (bodies.filter fun named => p named.1).map replace := by
  rw [List.filter_map]
  exact congrArg (List.map replace) (List.filter_congr fun named _ => congrArg p (h named))

theorem records_setEntry (h : program.Records ledger) {entry : List Token} (hentry : ∀ t ∈ entry, t.IsLegible) :
    (program.setEntry entry).Records { ledger with entry } := by
  have hbodies : (program.setEntry entry).bodies =
      program.bodies.map fun old => if old.1 == entryName then (entryName, entry) else old := by
    rw [setEntry, set, if_pos (contains_iff.2 h.mem_names)]
  have hnames : ∀ old : String × List Token, (if old.1 == entryName then (entryName, entry) else old).1 = old.1 := by
    intro old
    split
    · next heq => exact (beq_iff_eq.1 heq).symm
    · rfl
  refine ⟨?_, ?_, nodup_names_set h.distinct, h.allowed, ?_⟩
  · rw [hbodies, filter_map_of_fst hnames (· == entryName), h.entry]
    rfl
  · rw [Program.applications, hbodies, filter_map_of_fst hnames (· != entryName), ← h.applications]
    refine (List.map_congr_left fun named hnamed => if_neg ?_).trans (List.map_id _)
    simpa using (List.mem_filter.1 hnamed).2
  · intro named hnamed
    obtain rfl | hold := mem_bodies_of_mem_set hnamed
    · exact hentry
    · exact h.legible named hold

theorem records_reload (h : program.Records ledger) (hreload : ofJson program.toJson = .ok edited) :
    edited.Records { ledger with applications := ledger.applications.map bound } := by
  have hchecked := (ofJson_toJson_eq_ok_iff h.distinct h.mem_names h.legible).1 hreload
  obtain ⟨hacceptable, hbodies⟩ := checkBodies_eq_ok_iff_acceptable.1 hchecked
  have hnames : ∀ named, (bound named).1 = named.1 := fun named => rfl
  -- the entry point has no argument that could be bound
  have hentry : bound (entryName, ledger.entry) = (entryName, ledger.entry) := by
    have hargument := (hacceptable _ h.mem_bodies).closed rfl
    have hplaceholder : .placeholder ∉ ledger.entry := fun hmem => by cases hargument _ hmem
    exact Prod.ext rfl (map_bindParameter_eq_self hplaceholder)
  refine ⟨?_, ?_, ?_, ?_, ?_⟩
  · rw [hbodies, filter_map_of_fst hnames (· == entryName), h.entry, List.map_singleton, hentry]
  · rw [Program.applications, hbodies, filter_map_of_fst hnames (· != entryName), ← h.applications]
    rfl
  · rw [names, hbodies, List.map_map]
    exact h.distinct
  · rw [List.map_map]
    exact h.allowed
  · intro named hnamed t ht
    rw [hbodies] at hnamed
    obtain ⟨old, hold, rfl⟩ := List.mem_map.1 hnamed
    obtain ⟨t', ht', rfl⟩ := List.mem_map.1 ht
    exact Token.isLegible_bindParameter (h.legible old hold t' ht')

/-- A step that does not fail is written down. -/
theorem records_apply {edit : Edit} (h : program.Records ledger) (hedit : ∀ t ∈ edit.tokens, t.IsLegible)
    (happly : edit.apply program = .ok edited) : edited.Records (ledger.note edit) := by
  cases edit with
  | start entry =>
    cases happly
    exact records_ofEntry hedit
  | insert name body => exact records_insert h hedit happly
  | setEntry entry =>
    cases happly
    exact records_setEntry h hedit
  | reload => exact records_reload h happly

/-! ## Any number of steps -/

theorem after_of_ok {edit : Edit} (h : edit.apply program = .ok edited) : program.after edit = edited := by
  rw [after, h]

theorem after_of_error {edit : Edit} {error : Error} (h : edit.apply program = .error error) : program.after edit = program := by
  rw [after, h]

/-- The steps that do not fail are all that needs to be written down. -/
theorem records_after {edits : List Edit} (h : program.Records ledger) (hedits : ∀ edit ∈ edits, ∀ t ∈ edit.tokens, t.IsLegible) :
    (edits.foldl after program).Records ((succeeding program edits).foldl Ledger.note ledger) := by
  induction edits generalizing program ledger with
  | nil => exact h
  | cons edit edits ih =>
    obtain ⟨hedit, hedits⟩ := List.forall_mem_cons.1 hedits
    rw [List.foldl_cons, succeeding]
    cases happly : edit.apply program with
    | error error =>
      rw [after_of_error happly]
      exact ih h hedits
    | ok edited =>
      rw [after_of_ok happly]
      exact ih (records_apply h hedit happly) hedits

namespace Records

theorem insert_fails_iff (h : program.Records ledger) :
    (∃ error, program.insert name body = .error error) ↔
      ¬IsName name ∨ IsReserved name ∨ name ∈ ledger.applications.map Prod.fst := by
  simp only [insert_eq_error_iff, checkName_eq_error_iff, checkName_eq_ok_iff, h.mem_names_iff]
  constructor
  · rintro ⟨error, (⟨hname, -⟩ | ⟨-, hreserved, -⟩) | ⟨-, rfl | htaken, -⟩⟩
    · exact .inl hname
    · exact .inr (.inl hreserved)
    · exact .inr (.inl (.inl rfl))
    · exact .inr (.inr htaken)
  · intro hrefused
    by_cases hname : IsName name
    · by_cases hreserved : IsReserved name
      · exact ⟨_, .inl (.inr ⟨hname, hreserved, rfl⟩)⟩
      · exact ⟨_, .inr ⟨⟨hname, hreserved⟩, .inr ((hrefused.resolve_left (not_not.2 hname)).resolve_left hreserved), rfl⟩⟩
    · exact ⟨_, .inl (.inl ⟨hname, rfl⟩)⟩

theorem reload_iff (h : program.Records ledger) :
    (∃ reloaded, ofJson program.toJson = .ok reloaded) ↔ ∀ named ∈ program.bodies, Acceptable named.1 named.2 := by
  simp only [ofJson_toJson_eq_ok_iff h.distinct h.mem_names h.legible, checkBodies_eq_ok_iff_acceptable]
  exact ⟨fun ⟨_, hbodies⟩ => hbodies.1, fun hbodies => ⟨⟨_⟩, hbodies, rfl⟩⟩

end Records

/-- However a program is built up of tokens that were read from words, it has one entry point, with the body that was given last, and the
applications that were added, in that order. Adding one fails for its name only, reading the program again for its bodies only, and a step
that fails changes nothing. -/
theorem edited_records (entry : List Token) (edits : List Edit) (hentry : ∀ t ∈ entry, ∃ word, Token.ofWord word = .ok t)
    (hedits : ∀ edit ∈ edits, ∀ t ∈ edit.tokens, ∃ word, Token.ofWord word = .ok t) :
    let program := edits.foldl after (ofEntry entry)
    let ledger := (succeeding (ofEntry entry) edits).foldl Ledger.note ⟨entry, []⟩
    let listed := program.applications.map Prod.fst
    (program.bodies.filter (·.1 == entryName) = [(entryName, ledger.entry)] ∧ program.entry = ledger.entry) ∧
    (program.applications = ledger.applications ∧ listed.Nodup) ∧
    (∀ name, program.isApplication name = true ↔ name ∈ listed) ∧
    (∀ name ∈ listed, checkName name = .ok () ∧ Token.ofWord name = .ok (.identifier name)) ∧
    (∀ name body, (∃ error, program.insert name body = .error error) ↔ ¬IsName name ∨ IsReserved name ∨ name ∈ listed) ∧
    ((∃ reloaded, ofJson program.toJson = .ok reloaded) ↔ ∀ named ∈ program.bodies, Acceptable named.1 named.2) ∧
    ∀ edit error, edit.apply program = .error error → program.after edit = program := by
  intro program ledger listed
  have hread : ∀ t : Token, (∃ word, Token.ofWord word = .ok t) → t.IsLegible := fun t ⟨_, h⟩ => Token.isLegible_of_ofWord h
  have hrecords : program.Records ledger := records_after (records_ofEntry fun t ht => hread t (hentry t ht))
    fun edit hedit t ht => hread t (hedits edit hedit t ht)
  have hlisted : listed = ledger.applications.map Prod.fst := congrArg (List.map Prod.fst) hrecords.applications
  rw [hlisted]
  refine ⟨⟨hrecords.entry, hrecords.entry_eq⟩, ⟨hrecords.applications, hrecords.nodup_applications⟩,
    fun name => hrecords.isApplication_iff_mem, fun name hname => ?_, fun name body => hrecords.insert_fails_iff,
    hrecords.reload_iff, fun edit error => after_of_error⟩
  exact ⟨hrecords.allowed name hname, ofWord_of_checkName (hrecords.allowed name hname)⟩

/-- Two of these steps fail: one gives the name of the entry point, one a name that is taken. The argument is bound when the program is
read again. -/
theorem edited_records_of_reload :
    let edits : List Edit := [.insert "main" [], .insert "f" [.opening .applicator, .placeholder, .closing .applicator],
      .insert "f" [.builtin .nop], .setEntry [.opening .applicator, .literal 0, .identifier "f", .closing .applicator], .reload]
    let program := edits.foldl after (ofEntry [])
    (∀ t ∈ ([] : List Token), ∃ word, Token.ofWord word = .ok t) ∧
      (∀ edit ∈ edits, ∀ t ∈ edit.tokens, ∃ word, Token.ofWord word = .ok t) ∧
      program.entry = [.opening .applicator, .literal 0, .identifier "f", .closing .applicator] ∧
      program.applications = [("f", [.opening .applicator, .parameter, .closing .applicator])] ∧
      Token.ofWord "f" = .ok (.identifier "f") := by
  intro edits program
  have hlegible : ∀ edit ∈ edits, ∀ t ∈ edit.tokens, Token.ofWord t.text = .ok t := by decide +kernel
  have hwords : ∀ edit ∈ edits, ∀ t ∈ edit.tokens, ∃ word, Token.ofWord word = .ok t :=
    fun edit hedit t ht => ⟨t.text, hlegible edit hedit t ht⟩
  have hsucceeding : succeeding (ofEntry []) edits = [.insert "f" [.opening .applicator, .placeholder, .closing .applicator],
      .setEntry [.opening .applicator, .literal 0, .identifier "f", .closing .applicator], .reload] := by
    decide +kernel
  obtain ⟨⟨-, hentry⟩, ⟨happlications, -⟩, -, hlisted, -⟩ := edited_records [] edits nofun hwords
  rw [hsucceeding] at hentry happlications
  rw [happlications] at hlisted
  exact ⟨nofun, hwords, hentry, happlications, (hlisted "f" List.mem_cons_self).2⟩

end Program

end Bracketry
