import Mathlib.Data.List.Induction
import Mathlib.Data.List.Nodup
import Bracketry.Proofs.Program.Acceptance

/-!
# Names that are given twice

An object may have several members of one name. A program has one body for each name, so that it cannot have kept all of them.

* `Program.names_ofMembers`, `Program.body?_ofMembers` : a name has the place of its first member and the body of its last one;
* `Program.body?_of_checkBodies` : a body that has been checked is the one that was given, with its argument bound;
* `Program.ofJson_keeps_last` : what is kept of the members of a text that is accepted, and when all of them are.
-/

namespace Bracketry.Program
open Definition

variable {program : Program} {bodies : List (String × List Token)}

/-! ## Members -/

theorem ofMembers_append_singleton (bodies : List (String × List Token)) (named : String × List Token) :
    ofMembers (bodies ++ [named]) = (ofMembers bodies).set named.1 named.2 :=
  List.foldl_append

/-- A name has the place of its first member. -/
theorem names_ofMembers (bodies : List (String × List Token)) :
    (ofMembers bodies).names = (bodies.map Prod.fst).eraseDups := by
  induction bodies using List.reverseRecOn with
  | nil => rfl
  | append_singleton bodies named ih =>
    rw [ofMembers_append_singleton, names_set, ih, List.map_append, List.map_singleton, List.eraseDups_append]
    by_cases hmem : named.1 ∈ bodies.map Prod.fst
    · rw [if_pos (List.mem_eraseDups.2 hmem)]
      simp [List.removeAll, hmem]
    · rw [if_neg (mt List.mem_eraseDups.1 hmem)]
      simp [List.removeAll, hmem, List.eraseDups_cons]

/-- A name has the body of its last member. -/
theorem body?_ofMembers (bodies : List (String × List Token)) (name : String) :
    (ofMembers bodies).body? name = bodies.reverse.lookup name := by
  induction bodies using List.reverseRecOn with
  | nil => rfl
  | append_singleton bodies named ih =>
    rw [ofMembers_append_singleton, body?_set, List.reverse_append, List.reverse_singleton, List.singleton_append,
      List.lookup_cons, ih]
    by_cases hname : name = named.1
    · rw [if_pos hname, beq_iff_eq.2 hname]
    · rw [if_neg hname, beq_false_of_ne hname]

/-! ## Bodies that were checked -/

theorem lookup_map_bound (bodies : List (String × List Token)) (name : String) :
    (bodies.map bound).lookup name = (bodies.lookup name).map (List.map Token.bindParameter) := by
  induction bodies with
  | nil => rfl
  | cons named bodies ih =>
    obtain ⟨first, body⟩ := named
    rw [List.map_cons, bound, List.lookup_cons, List.lookup_cons, ih]
    cases name == first <;> rfl

theorem body?_of_checkBodies {given : Program} (h : checkBodies given.bodies = .ok program.bodies) (name : String) :
    program.body? name = (given.body? name).map (List.map Token.bindParameter) := by
  rw [body?, (checkBodies_eq_ok_iff.1 h).2]
  exact lookup_map_bound given.bodies name

/-! ## Texts that were accepted -/

/-- Members of one name are all kept if they have the same body, and otherwise they are not. -/
theorem all_kept_iff (hdistinct : program.names.Nodup)
    (hbody : ∀ name, program.body? name = (bodies.reverse.lookup name).map (List.map Token.bindParameter)) :
    (∀ named ∈ bodies, bound named ∈ program.bodies) ↔
      ∀ named ∈ bodies, ∀ other ∈ bodies, named.1 = other.1 → bound named = bound other := by
  constructor
  · intro hkept named hnamed other hother hname
    have hfound := (body?_eq_some_iff hdistinct).2 (hkept named hnamed)
    have hfound' := (body?_eq_some_iff hdistinct).2 (hkept other hother)
    rw [hname] at hfound
    exact Prod.ext hname (Option.some.inj (hfound.symm.trans hfound'))
  · intro hsame named hnamed
    -- the last member of its name has the same body
    have hsome : (bodies.reverse.lookup named.1).isSome :=
      List.lookup_isSome_iff.2 ⟨named, List.mem_reverse.2 hnamed, beq_self_eq_true named.1⟩
    obtain ⟨body, hlast⟩ := Option.isSome_iff_exists.1 hsome
    obtain ⟨before, after, hbodies, -⟩ := List.lookup_eq_some_iff.1 hlast
    have hmem : (named.1, body) ∈ bodies :=
      List.mem_reverse.1 (hbodies ▸ List.mem_append_right before List.mem_cons_self)
    rw [hsame named hnamed _ hmem rfl]
    exact (body?_eq_some_iff hdistinct).1 (by rw [hbody, hlast]; rfl)

/-- A text that is accepted is an object of lists of strings that are texts of tokens. Each name in it has one entry, at the place of
its first member and with the body of its last one. So every member is an entry, its argument bound, just when those of one name have
the same body, and in particular when no name is given twice. -/
theorem ofJson_keeps_last {json : String} (h : ofJson json = .ok program) :
    (∃ members, Json.IsTable members json.toList) ∧
    ∀ members, Json.IsTable members json.toList → ∃ bodies, Tokenised members bodies ∧
      program.names = (members.map Prod.fst).eraseDups ∧
      (∀ name, program.body? name = (bodies.reverse.lookup name).map (List.map Token.bindParameter)) ∧
      ((∀ named ∈ bodies, bound named ∈ program.bodies) ↔
        ∀ named ∈ bodies, ∀ other ∈ bodies, named.1 = other.1 → bound named = bound other) ∧
      ((members.map Prod.fst).Nodup → ∀ named ∈ bodies, bound named ∈ program.bodies) := by
  obtain ⟨bodies, hread, -, hchecked⟩ := ofJson_eq_ok_iff.1 h
  obtain ⟨members, htable, -⟩ := Json.readTable_eq_ok_iff.1 hread
  refine ⟨⟨members, htable⟩, fun members htable => ?_⟩
  have htokens : Tokenised members bodies := by rwa [← mapM_tokensOf_eq_ok_iff, ← Json.readTable_of_isTable htable]
  have hbody : ∀ name, program.body? name = (bodies.reverse.lookup name).map (List.map Token.bindParameter) := fun name => by
    rw [body?_of_checkBodies hchecked, body?_ofMembers]
  have hkept := all_kept_iff (sound_of_ofJson h).distinct hbody
  have hnames := names_eq_of_tokenised htokens
  refine ⟨bodies, htokens, ?_, hbody, hkept, fun hdistinct => hkept.2 fun named hnamed other hother hname => ?_⟩
  · rw [names_of_checkBodies hchecked, names_ofMembers, hnames]
  · rw [List.inj_on_of_nodup_map (hnames ▸ hdistinct) hnamed hother hname]

/-- A text with two members of one name. -/
theorem isTable_of_two : Json.IsTable [("main", []), ("f", ["$"]), ("f", [])]
    "\x7b\"main\":[],\"f\":[\"$\"],\"f\":[]\x7d".toList := by
  have hnil := Json.isSpacing_nil
  have hmain : Json.IsMember ("main", []) "\"main\":[]".toList :=
    ⟨_, [], [], _, Json.quoted_quote "main", hnil, hnil, .empty hnil, rfl⟩
  have hfirst : Json.IsMember ("f", ["$"]) "\"f\":[\"$\"]".toList :=
    ⟨_, [], [], _, Json.quoted_quote "f", hnil, hnil, .items (.last ⟨[], _, [], hnil, Json.quoted_quote "$", hnil, rfl⟩), rfl⟩
  have hlast : Json.IsMember ("f", []) "\"f\":[]".toList :=
    ⟨_, [], [], _, Json.quoted_quote "f", hnil, hnil, .empty hnil, rfl⟩
  exact ⟨[], _, [], hnil, hnil, .items (.next ⟨[], _, [], hnil, hmain, hnil, rfl⟩ (.next ⟨[], _, [], hnil, hfirst, hnil, rfl⟩
    (.last ⟨[], _, [], hnil, hlast, hnil, rfl⟩))), rfl⟩

theorem ofJson_of_two :
    ofJson "\x7b\"main\":[],\"f\":[\"$\"],\"f\":[]\x7d" = .ok ⟨[("main", []), ("f", [])]⟩ := by
  refine ofJson_eq_ok_iff.2 ⟨[("main", []), ("f", [.placeholder]), ("f", [])], ?_, by decide, rfl⟩
  rw [Json.readTable_of_isTable isTable_of_two]
  rfl

/-- Of two applications of one name the last one is kept, which has no tokens. -/
theorem ofJson_keeps_last_of_two :
    ofJson "\x7b\"main\":[],\"f\":[\"$\"],\"f\":[]\x7d" = .ok ⟨[("main", []), ("f", [])]⟩ ∧
      ∃ bodies, Tokenised [("main", []), ("f", ["$"]), ("f", [])] bodies ∧
        (bodies.reverse.lookup "f").map (List.map Token.bindParameter) = some [] := by
  obtain ⟨-, hmembers⟩ := ofJson_keeps_last ofJson_of_two
  obtain ⟨bodies, htokens, -, hbody, -⟩ := hmembers _ isTable_of_two
  exact ⟨ofJson_of_two, bodies, htokens, (hbody "f").symm⟩

/-- So not every member of a text that is accepted is an entry of its program. -/
theorem not_all_kept :
    ¬∀ (json : String) (program : Program) (members : List (String × List String)) (bodies : List (String × List Token)),
      ofJson json = .ok program → Json.IsTable members json.toList → Tokenised members bodies →
      ∀ named ∈ bodies, bound named ∈ program.bodies := by
  intro hall
  have htokens : Tokenised [("main", []), ("f", ["$"]), ("f", [])] [("main", []), ("f", [.placeholder]), ("f", [])] :=
    .cons ⟨rfl, .nil⟩ (.cons ⟨rfl, .cons rfl .nil⟩ (.cons ⟨rfl, .nil⟩ .nil))
  exact absurd (hall _ _ _ _ ofJson_of_two isTable_of_two htokens ("f", [.placeholder]) (by decide)) (by decide)

end Bracketry.Program
