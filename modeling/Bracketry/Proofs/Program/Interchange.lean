import Bracketry.Proofs.Program.Loaded

/-!
# The interchange form loses nothing

* `Program.toList_toJson` : the characters of the interchange form, as `Json.readTable` meets them;
* `Program.ofMembers_bodies` : bodies with distinct names are members that give the program again;
* `Program.ofJson_toJson_eq_ok_iff` : what is read back of a program; `Program.ofJson_toJson_of_sound` : a sound one is read back
  as it is;
* `Program.ofJson_toJson` : so is every program that was read from some text, of either kind.
-/

namespace Bracketry.Program

variable {program : Program}

/-! ## Characters -/

theorem intercalate_indented (pad item : List Char) (items : List (List Char)) :
    [',', '\n'].intercalate ((pad ++ item) :: items.map (pad ++ ·)) =
      pad ++ (item ++ items.flatMap fun item => ',' :: ('\n' :: pad ++ item)) := by
  induction items generalizing item with
  | nil => simp
  | cons next items ih =>
    rw [List.map_cons, List.intercalate_cons_cons, ih]
    simp

theorem toList_jsonLines {opener closer indent : String} {c : Char} (hcloser : closer.toList = [c]) (items : List String) :
    (jsonLines opener closer indent items).toList = opener.toList ++ Json.lines indent.toList (items.map String.toList) c := by
  cases items with
  | nil => simp [jsonLines, Json.lines, hcloser]
  | cons item items =>
    have hitems : ((item :: items).map fun item => indent ++ "  " ++ item).map String.toList =
        (indent.toList ++ [' ', ' '] ++ item.toList) :: (items.map String.toList).map (indent.toList ++ [' ', ' '] ++ ·) := by
      simp
    have hseparator : ",\n".toList = [',', '\n'] := rfl
    rw [jsonLines, if_neg (by simp)]
    simp only [String.toList_append, String.toList_intercalate, hitems, hseparator, intercalate_indented, hcloser]
    simp [Json.lines, Json.following]

theorem toList_toJson : program.toJson.toList = '{' :: Json.lines [] (program.bodies.map Json.printed) '}' := by
  rw [toJson, toList_jsonLines (show "\x7d".toList = ['}'] from rfl), List.map_map]
  refine congrArg (fun items => '{' :: Json.lines [] items '}') (List.map_congr_left fun named _ => ?_)
  obtain ⟨name, body⟩ := named
  change (Json.quote name ++ ": " ++ _).toList = _
  rw [String.toList_append, String.toList_append, toList_jsonLines (show "]".toList = [']'] from rfl), List.map_map,
    List.append_assoc]
  rfl

/-! ## Members -/

theorem setAll_of_nodup {members : List (String × List Token)} (h : (program.names ++ members.map Prod.fst).Nodup) :
    program.setAll members = ⟨program.bodies ++ members⟩ := by
  induction members generalizing program with
  | nil => rw [List.append_nil]; rfl
  | cons member members ih =>
    obtain ⟨name, body⟩ := member
    have hnew : name ∉ program.names := fun hmem =>
      (List.nodup_append.1 h).2.2 name hmem name List.mem_cons_self rfl
    have hset : program.set name body = ⟨program.bodies ++ [(name, body)]⟩ :=
      set_of_not_contains body (contains_eq_false_iff.2 hnew)
    have hnames : ((⟨program.bodies ++ [(name, body)]⟩ : Program).names ++ members.map Prod.fst).Nodup := by
      simpa [names] using h
    change (program.set name body).setAll members = _
    rw [hset, ih hnames, List.append_assoc, List.singleton_append]

/-- Bodies with distinct names are members that give the program again. -/
theorem ofMembers_bodies (h : program.names.Nodup) : ofMembers program.bodies = program := by
  rw [ofMembers_eq]
  exact setAll_of_nodup h

theorem checkBodies_of_checked {bodies : List (String × List Token)}
    (h : ∀ named ∈ bodies, checkBody named.1 named.2 = .ok named.2) : checkBodies bodies = .ok bodies := by
  have hbound : bodies.map Definition.bound = bodies.map id :=
    List.map_congr_left fun named hnamed => Prod.ext rfl (checkBody_eq_ok_iff.1 (h named hnamed)).2.2.2.symm
  refine checkBodies_eq_ok_iff.2 ⟨fun named hnamed => ⟨_, h named hnamed⟩, ?_⟩
  rw [hbound, List.map_id]

/-! ## There and back -/

/-- What is read back from the interchange form of a program are its bodies as the check gives them. -/
theorem ofJson_toJson_eq_ok_iff {result : Program} (hdistinct : program.names.Nodup) (hentry : entryName ∈ program.names)
    (hlegible : Json.Legible program.bodies) : ofJson program.toJson = .ok result ↔ checkBodies program.bodies = .ok result.bodies := by
  rw [ofJson_eq_ok_iff, toList_toJson, Json.readTable_lines hlegible]
  constructor
  · rintro ⟨members, hmembers, -, hbodies⟩
    cases hmembers
    rwa [ofMembers_bodies hdistinct] at hbodies
  · intro hbodies
    exact ⟨program.bodies, rfl, by rwa [ofMembers_bodies hdistinct], by rwa [ofMembers_bodies hdistinct]⟩

theorem ofJson_toJson_of_sound (h : program.Sound) : ofJson program.toJson = .ok program :=
  (ofJson_toJson_eq_ok_iff h.distinct h.entry h.legible).2 (checkBodies_of_checked h.checked)

theorem loaded_of_sound (h : program.Sound) : program.Loaded := .inr ⟨program.toJson, ofJson_toJson_of_sound h⟩

/-- A program that was read from any text, source or interchange form, is the program that its interchange form is read as: the
same names in the same order, and the same tokens under each of them. -/
theorem ofJson_toJson (h : program.Loaded) : ofJson program.toJson = .ok program := ofJson_toJson_of_sound (sound_of_loaded h)

/-- The entry point comes second, and its identifier has a quote, a backslash, a control character and a space in it. -/
theorem ofJson_toJson_of_escapes :
    let program : Program := ⟨[("inc", [.opening .applicator, .parameter, .builtin .increment, .closing .applicator]),
      (entryName, [.opening .applicator, .literal (-7), .identifier "\"\\\x01 ü", .closing .applicator])]⟩
    program.Loaded ∧ ofJson program.toJson = .ok program := by
  intro program
  have hsound : program.Sound := {
    distinct := by decide
    entry := by decide
    checked := List.forall_mem_cons.2 ⟨rfl, List.forall_mem_cons.2 ⟨rfl, nofun⟩⟩
    legible := by
      refine List.forall_mem_cons.2 ⟨?_, List.forall_mem_cons.2 ⟨?_, nofun⟩⟩
      · simp only [List.forall_mem_cons]
        exact ⟨rfl, rfl, rfl, rfl, nofun⟩
      · simp only [List.forall_mem_cons]
        exact ⟨rfl, rfl, rfl, rfl, nofun⟩ }
  exact ⟨loaded_of_sound hsound, ofJson_toJson (loaded_of_sound hsound)⟩

end Bracketry.Program
