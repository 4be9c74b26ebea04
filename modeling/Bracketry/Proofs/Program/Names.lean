import Bracketry.Program.Basic
import Bracketry.Proofs.Checks

/-!
# The names of a program

* `IsName`, `IsReserved` : the words that are names at all, and those among all words that the language keeps for itself;
  `checkName_eq_ok_iff` and `checkName_eq_error_iff` say which names are allowed and how others are refused;
* `Program.names` : the names of the bodies in order;
* `Program.lookup_applications_eq_some_iff`, `Program.isApplication_iff` : the applications, and the names that may be called;
* `Program.body?_set`, `Program.names_set` : a body under a name;
* `Program.insert_eq_ok_iff`, `Program.insert_eq_error_iff` : when an application is added, and to what.
-/

namespace Bracketry

def IsName (name : String) : Prop := name ≠ "" ∧ ∀ c ∈ name.toList, isNameChar c = true

/-- The name of the entry point and the spellings of the builtins. -/
def IsReserved (name : String) : Prop := name = entryName ∨ ∃ op : Builtin, op.symbol = name

theorem isName_iff {name : String} : IsName name ↔ (name.isEmpty || !name.toList.all isNameChar) = false := by
  simp [IsName]

theorem isReserved_iff {name : String} :
    IsReserved name ↔ (name == entryName || (Builtin.ofSymbol? name).isSome) = true := by
  have hbuiltin : (∃ op : Builtin, op.symbol = name) ↔ (Builtin.ofSymbol? name).isSome = true := by
    constructor
    · rintro ⟨op, rfl⟩
      rw [Builtin.ofSymbol?_symbol]
      rfl
    · intro h
      obtain ⟨op, hop⟩ := Option.isSome_iff_exists.1 h
      exact ⟨op, by simpa using List.find?_some hop⟩
  rw [IsReserved, hbuiltin, Bool.or_eq_true, beq_iff_eq]

theorem checkName_eq_ok_iff {name : String} : checkName name = .ok () ↔ IsName name ∧ ¬IsReserved name := by
  rw [isName_iff, isReserved_iff]
  unfold checkName
  split
  · next h => simp [h]
  · next h =>
    split
    · next h' => simp [h']
    · next h' => simp [h, h']

/-- A word that is no name is refused as such, and only then a name that is reserved. -/
theorem checkName_eq_error_iff {name : String} {error : Error} :
    checkName name = .error error ↔
      ¬IsName name ∧ error = .invalidName name ∨ IsName name ∧ IsReserved name ∧ error = .reservedName name := by
  rw [isName_iff, isReserved_iff]
  unfold checkName
  split
  · next h => simpa [h] using eq_comm
  · next h =>
    split
    · next h' => simpa [h, h'] using eq_comm
    · next h' => simp [h, h']

namespace Program

def names (program : Program) : List String := program.bodies.map Prod.fst

variable {program : Program} {name : String} {body : List Token}

theorem contains_iff : program.contains name = true ↔ name ∈ program.names := by
  rw [contains, List.any_eq_true, names, List.mem_map]
  simp only [beq_iff_eq]

theorem contains_eq_false_iff : program.contains name = false ↔ name ∉ program.names := by
  rw [← contains_iff, Bool.not_eq_true]

/-! ## Bodies under a name -/

theorem contains_iff_exists_body? : program.contains name = true ↔ ∃ body, program.body? name = some body := by
  rw [body?, ← Option.isSome_iff_exists, List.lookup_isSome_iff, contains, List.any_eq_true]
  simp only [beq_iff_eq, @eq_comm _ name]

/-- Where every name has one body, looking a name up finds it. -/
theorem body?_eq_some_iff (hnodup : program.names.Nodup) : program.body? name = some body ↔ (name, body) ∈ program.bodies := by
  rw [body?, List.lookup_eq_some_iff]
  constructor
  · rintro ⟨before, after, hbodies, -⟩
    rw [hbodies]
    exact List.mem_append_right before List.mem_cons_self
  · intro h
    obtain ⟨before, after, hbodies⟩ := List.append_of_mem h
    refine ⟨before, after, hbodies, fun other hother => ?_⟩
    rw [names, hbodies, List.map_append, List.map_cons] at hnodup
    have hne := (List.nodup_append.1 hnodup).2.2 other.1 (List.mem_map_of_mem hother) name List.mem_cons_self
    exact bne_iff_ne.2 (Ne.symm hne)

/-! ## Applications -/

theorem lookup_applications (hname : name ≠ entryName) :
    program.applications.lookup name = program.body? name := by
  unfold applications body?
  induction program.bodies with
  | nil => rfl
  | cons named bodies ih =>
    obtain ⟨other, body⟩ := named
    by_cases hother : other = entryName
    · have hne : (name == other) = false := by simpa [hother] using hname
      rw [List.filter_cons_of_neg (by simp [hother]), List.lookup_cons, hne]
      exact ih
    · rw [List.filter_cons_of_pos (by simpa using hother), List.lookup_cons, List.lookup_cons, ih]

theorem lookup_applications_eq_some_iff :
    program.applications.lookup name = some body ↔ name ≠ entryName ∧ program.body? name = some body := by
  by_cases hname : name = entryName
  · refine ⟨fun h => ?_, fun h => absurd hname h.1⟩
    obtain ⟨before, after, happlications, -⟩ := List.lookup_eq_some_iff.1 h
    have hmem : (name, body) ∈ program.applications := happlications ▸ List.mem_append_right before List.mem_cons_self
    exact absurd hname (bne_iff_ne.1 (List.mem_filter.1 hmem).2)
  · rw [lookup_applications hname]
    exact (and_iff_right hname).symm

theorem isApplication_iff : program.isApplication name = true ↔ ∃ body, program.applications.lookup name = some body := by
  simp only [isApplication, Bool.and_eq_true, bne_iff_ne, contains_iff_exists_body?, lookup_applications_eq_some_iff,
    exists_and_left]

theorem mem_names_of_isApplication (h : program.isApplication name = true) : name ∈ program.applications.map Prod.fst := by
  obtain ⟨body, hlookup⟩ := isApplication_iff.1 h
  obtain ⟨before, after, happlications, -⟩ := List.lookup_eq_some_iff.1 hlookup
  exact List.mem_map_of_mem (f := Prod.fst) (happlications ▸ List.mem_append_right before (List.mem_cons_self (a := (name, body))))

/-! ## Building a program up -/

theorem lookup_map_replace (other : String) (bodies : List (String × List Token)) :
    (bodies.map fun old => if old.1 == name then (name, body) else old).lookup other =
      if other = name then (bodies.lookup name).map fun _ => body else bodies.lookup other := by
  induction bodies with
  | nil => simp
  | cons old bodies ih =>
    obtain ⟨first, old⟩ := old
    rw [List.map_cons, List.lookup_cons, List.lookup_cons, List.lookup_cons, ih]
    by_cases hfirst : first = name
    · subst hfirst
      by_cases hother : other = first
      · simp [hother]
      · simp [hother, beq_false_of_ne hother]
    · by_cases hother : other = name
      · subst hother
        simp [hfirst, beq_false_of_ne (Ne.symm hfirst)]
      · simp [hfirst, hother]

theorem body?_set (other : String) :
    (program.set name body).body? other = if other = name then some body else program.body? other := by
  unfold set
  by_cases hcontains : program.contains name = true
  · obtain ⟨old, hold⟩ := contains_iff_exists_body?.1 hcontains
    rw [if_pos hcontains, body?, lookup_map_replace, show program.bodies.lookup name = some old from hold]
    rfl
  · have hnone : program.bodies.lookup name = none :=
      Option.eq_none_iff_forall_not_mem.2 fun old hold => hcontains (contains_iff_exists_body?.2 ⟨old, hold⟩)
    rw [if_neg hcontains, body?, List.lookup_append]
    by_cases hother : other = name
    · simp [hother, hnone]
    · simp [body?, List.lookup_cons, hother, beq_false_of_ne hother]

theorem entry_setEntry (entry : List Token) : (program.setEntry entry).entry = entry := by
  rw [Program.entry, setEntry, body?_set, if_pos rfl]
  rfl

theorem body?_setEntry (hname : name ≠ entryName) (entry : List Token) :
    (program.setEntry entry).body? name = program.body? name := by
  rw [setEntry, body?_set, if_neg hname]

/-- A name that has a body keeps its place, a new one goes to the end. -/
theorem names_set : (program.set name body).names = if name ∈ program.names then program.names else program.names ++ [name] := by
  unfold set
  by_cases h : program.contains name = true
  · rw [if_pos h, if_pos (contains_iff.1 h)]
    have hfst : ∀ old : String × List Token, (if old.1 == name then (name, body) else old).1 = old.1 := by
      intro old
      split
      · next heq => exact (beq_iff_eq.1 heq).symm
      · rfl
    simp only [names, List.map_map]
    exact List.map_congr_left fun old _ => hfst old
  · rw [if_neg h, if_neg (mt contains_iff.2 h)]
    simp [names]

theorem nodup_names_set (h : program.names.Nodup) : (program.set name body).names.Nodup := by
  rw [names_set]
  split
  · exact h
  · next hmem =>
    refine List.nodup_append.2 ⟨h, List.nodup_cons.2 ⟨List.not_mem_nil, List.nodup_nil⟩, ?_⟩
    intro other hother _ hname heq
    rw [heq, List.mem_singleton.1 hname] at hother
    exact hmem hother

theorem set_cons_self {old : List Token} {bodies : List (String × List Token)} (h : name ∉ bodies.map Prod.fst) :
    (⟨(name, old) :: bodies⟩ : Program).set name body = ⟨(name, body) :: bodies⟩ := by
  have hcontains : (⟨(name, old) :: bodies⟩ : Program).contains name = true := by simp [contains]
  have hrest : bodies.map (fun old => if old.1 == name then (name, body) else old) = bodies := by
    refine (List.map_congr_left fun other hother => if_neg fun heq => h ?_).trans (List.map_id bodies)
    exact List.mem_map.2 ⟨other, hother, beq_iff_eq.1 heq⟩
  rw [set, if_pos hcontains, List.map_cons, hrest]
  simp

theorem insert_eq_ok_iff {result : Program} :
    program.insert name body = .ok result ↔
      checkName name = .ok () ∧ name ∉ program.names ∧ result = ⟨program.bodies ++ [(name, body)]⟩ := by
  unfold insert
  simp only [bind_eq_ok_iff, unless_eq_ok_iff, contains_iff]
  constructor
  · rintro ⟨_, hcheck, hnew, hset⟩
    rw [set_of_not_contains body (contains_eq_false_iff.2 hnew)] at hset
    exact ⟨hcheck, hnew, (Except.ok.inj hset).symm⟩
  · rintro ⟨hcheck, hnew, rfl⟩
    rw [set_of_not_contains body (contains_eq_false_iff.2 hnew)]
    exact ⟨(), hcheck, hnew, rfl⟩

theorem insert_eq_error_iff {error : Error} :
    program.insert name body = .error error ↔
      checkName name = .error error ∨ checkName name = .ok () ∧ name ∈ program.names ∧ error = .duplicateName name := by
  unfold insert
  simp only [bind_eq_error_iff, unless_eq_error_iff, contains_iff]
  constructor
  · rintro (hcheck | ⟨_, hcheck, ⟨htaken, rfl⟩ | ⟨-, hset⟩⟩)
    · exact .inl hcheck
    · exact .inr ⟨hcheck, htaken, rfl⟩
    · cases hset
  · rintro (hcheck | ⟨hcheck, htaken, rfl⟩)
    · exact .inl hcheck
    · exact .inr ⟨(), hcheck, .inl ⟨htaken, rfl⟩⟩

end Program

end Bracketry
