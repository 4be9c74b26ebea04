import Mathlib.Data.List.Forall2

/-!
# Checks in a row

What is read or checked step by step ends with the first error on the way.

* `bind_eq_ok_iff`, `bind_eq_error_iff`, `bind_pure_eq_error_iff` : one step and what follows it;
* `unless_eq_ok_iff`, `unless_eq_error_iff` : a test that refuses, and what follows it;
* `when_eq_ok_iff`, `when_eq_error_iff` : a step under a condition, and what follows it;
* `mapError_eq_ok_iff`, `mapError_eq_error_iff` : a step whose errors are told in another way;
* `mapM_eq_ok_iff`, `mapM_eq_ok_iff_map`, `exists_of_mem_mapM`, `mapM_eq_error_iff` : a step for each item of a list, its results kept;
* `foldlM_eq_error_iff` : a step for each item of a list, each from what the one before it gave.
-/

namespace Bracketry

variable {ε α β : Type}

theorem bind_eq_ok_iff {x : Except ε α} {f : α → Except ε β} {b : β} :
    (x >>= f) = .ok b ↔ ∃ a, x = .ok a ∧ f a = .ok b := by
  cases x with
  | error fault => exact ⟨nofun, fun ⟨_, h, _⟩ => nomatch h⟩
  | ok a => exact ⟨fun h => ⟨a, rfl, h⟩, fun ⟨_, h, hf⟩ => Except.ok.inj h ▸ hf⟩

theorem bind_eq_error_iff {x : Except ε α} {f : α → Except ε β} {e : ε} :
    (x >>= f) = .error e ↔ x = .error e ∨ ∃ a, x = .ok a ∧ f a = .error e := by
  cases x with
  | error fault => exact ⟨fun h => .inl (congrArg _ (Except.error.inj h)), fun h => h.elim (congrArg _ ∘ Except.error.inj) nofun⟩
  | ok a => exact ⟨fun h => .inr ⟨a, rfl, h⟩, fun h => h.elim nofun fun ⟨_, h, hf⟩ => Except.ok.inj h ▸ hf⟩

theorem bind_pure_eq_error_iff {x : Except ε α} {f : α → β} {e : ε} : (x >>= fun a => pure (f a)) = .error e ↔ x = .error e :=
  bind_eq_error_iff.trans (or_iff_left fun ⟨_, _, h⟩ => nomatch h)

section
variable {c : Prop} [Decidable c] {e : ε} {k : PUnit → Except ε α} {x : Except ε α}

theorem unless_eq_ok_iff {a : α} : (if c then throw e >>= k else x) = .ok a ↔ ¬c ∧ x = .ok a := by
  split
  · next h => exact ⟨nofun, fun ⟨hnot, _⟩ => absurd h hnot⟩
  · next h => exact ⟨fun hx => ⟨h, hx⟩, fun hx => hx.2⟩

theorem unless_eq_error_iff {e' : ε} :
    (if c then throw e >>= k else x) = .error e' ↔ c ∧ e' = e ∨ ¬c ∧ x = .error e' := by
  split
  · next h =>
    refine ⟨fun hthrow => .inl ⟨h, (Except.error.inj hthrow).symm⟩, ?_⟩
    rintro (⟨-, rfl⟩ | ⟨hnot, -⟩)
    · rfl
    · exact absurd h hnot
  · next h => exact ⟨fun hx => .inr ⟨h, hx⟩, fun hx => hx.elim (fun hc => absurd hc.1 h) fun hx => hx.2⟩

/-- A step that is taken under a condition, and what comes after it in any case. -/
theorem when_eq_ok_iff {y : Except ε PUnit} {a : α} : (if c then y >>= k else k ⟨⟩) = .ok a ↔ (c → y = .ok ⟨⟩) ∧ k ⟨⟩ = .ok a := by
  split
  · next h =>
    rw [bind_eq_ok_iff]
    exact ⟨fun ⟨_, hy, hk⟩ => ⟨fun _ => hy, hk⟩, fun ⟨hy, hk⟩ => ⟨⟨⟩, hy h, hk⟩⟩
  · next h => exact ⟨fun hk => ⟨fun hc => absurd hc h, hk⟩, fun hk => hk.2⟩

theorem when_eq_error_iff {y : Except ε PUnit} :
    (if c then y >>= k else k ⟨⟩) = .error e ↔ c ∧ y = .error e ∨ (c → y = .ok ⟨⟩) ∧ k ⟨⟩ = .error e := by
  split
  · next h =>
    rw [bind_eq_error_iff]
    refine or_congr (and_iff_right h).symm ⟨fun ⟨_, hy, hk⟩ => ⟨fun _ => hy, hk⟩, fun ⟨hy, hk⟩ => ⟨⟨⟩, hy h, hk⟩⟩
  · next h =>
    refine ⟨fun hk => .inr ⟨fun hc => absurd hc h, hk⟩, ?_⟩
    rintro (⟨hc, -⟩ | ⟨-, hk⟩)
    · exact absurd hc h
    · exact hk

end

theorem mapError_eq_ok_iff {ε' : Type} {f : ε → ε'} {x : Except ε α} {a : α} : x.mapError f = .ok a ↔ x = .ok a := by
  cases x with
  | error fault => exact ⟨nofun, nofun⟩
  | ok a' => exact ⟨fun h => congrArg Except.ok (Except.ok.inj h), fun h => congrArg Except.ok (Except.ok.inj h)⟩

theorem mapError_eq_error_iff {ε' : Type} {f : ε → ε'} {x : Except ε α} {e : ε'} :
    x.mapError f = .error e ↔ ∃ fault, x = .error fault ∧ e = f fault := by
  cases x with
  | error fault => exact ⟨fun h => ⟨fault, rfl, (Except.error.inj h).symm⟩, fun ⟨_, h, he⟩ => he ▸ Except.error.inj h ▸ rfl⟩
  | ok a => exact ⟨nofun, nofun⟩

/-- Every item passes, and the results stand in the order of the items. -/
theorem mapM_eq_ok_iff {f : α → Except ε β} {items : List α} {results : List β} :
    items.mapM f = .ok results ↔ List.Forall₂ (fun item result => f item = .ok result) items results := by
  induction items generalizing results with
  | nil =>
    rw [List.mapM_nil, List.forall₂_nil_left_iff]
    exact ⟨fun h => (Except.ok.inj h).symm, fun h => h ▸ rfl⟩
  | cons item items ih =>
    simp only [List.mapM_cons, bind_eq_ok_iff, ih, List.forall₂_cons_left_iff]
    constructor
    · rintro ⟨result, hitem, rest, hrest, heq⟩
      exact ⟨result, rest, hitem, hrest, (Except.ok.inj heq).symm⟩
    · rintro ⟨result, rest, hitem, hrest, rfl⟩
      exact ⟨result, hitem, rest, hrest, rfl⟩

/-- Where a result depends on its item alone, the items must pass, and the results are known. -/
theorem mapM_eq_ok_iff_map {f : α → Except ε β} {g : α → β} (hg : ∀ {item result}, f item = .ok result → result = g item)
    {items : List α} {results : List β} :
    items.mapM f = .ok results ↔ (∀ item ∈ items, ∃ result, f item = .ok result) ∧ results = items.map g := by
  induction items generalizing results with
  | nil => exact ⟨fun h => ⟨nofun, (Except.ok.inj h).symm⟩, fun ⟨_, h⟩ => h ▸ rfl⟩
  | cons item items ih =>
    simp only [List.mapM_cons, bind_eq_ok_iff, ih, List.forall_mem_cons, List.map_cons]
    constructor
    · rintro ⟨result, hitem, _, ⟨hrest, rfl⟩, heq⟩
      obtain rfl := hg hitem
      exact ⟨⟨⟨_, hitem⟩, hrest⟩, (Except.ok.inj heq).symm⟩
    · rintro ⟨⟨⟨result, hitem⟩, hrest⟩, rfl⟩
      obtain rfl := hg hitem
      exact ⟨_, hitem, _, ⟨hrest, rfl⟩, rfl⟩

theorem exists_of_mem_mapM {f : α → Except ε β} {items : List α} {results : List β} {result : β}
    (h : items.mapM f = .ok results) (hmem : result ∈ results) : ∃ item ∈ items, f item = .ok result := by
  induction mapM_eq_ok_iff.1 h with
  | nil => cases hmem
  | cons hitem hrest ih =>
    rcases List.mem_cons.1 hmem with rfl | hmem
    · exact ⟨_, List.mem_cons_self, hitem⟩
    · obtain ⟨item, hitems, hresult⟩ := ih (mapM_eq_ok_iff.2 hrest) hmem
      exact ⟨item, List.mem_cons_of_mem _ hitems, hresult⟩

theorem mapM_eq_error_iff {f : α → Except ε β} {items : List α} {e : ε} :
    items.mapM f = .error e ↔
      ∃ before item after, items = before ++ item :: after ∧ (∀ other ∈ before, ∃ result, f other = .ok result) ∧
        f item = .error e := by
  constructor
  · intro h
    induction items with
    | nil => cases h
    | cons first items ih =>
      rw [List.mapM_cons] at h
      rcases bind_eq_error_iff.1 h with hfirst | ⟨result, hfirst, h⟩
      · exact ⟨[], first, items, rfl, nofun, hfirst⟩
      · obtain ⟨before, item, after, rfl, hbefore, hitem⟩ := ih (bind_pure_eq_error_iff.1 h)
        exact ⟨first :: before, item, after, rfl, List.forall_mem_cons.2 ⟨⟨result, hfirst⟩, hbefore⟩, hitem⟩
  · rintro ⟨before, item, after, rfl, hbefore, hitem⟩
    induction before with
    | nil =>
      rw [List.nil_append, List.mapM_cons]
      exact bind_eq_error_iff.2 (.inl hitem)
    | cons first before ih =>
      obtain ⟨⟨result, hfirst⟩, hbefore⟩ := List.forall_mem_cons.1 hbefore
      rw [List.cons_append, List.mapM_cons]
      exact bind_eq_error_iff.2 (.inr ⟨result, hfirst, bind_pure_eq_error_iff.2 (ih hbefore)⟩)

/-- The first item that is refused gives the error. The items behind it are not looked at. -/
theorem foldlM_eq_error_iff {f : β → α → Except ε β} {items : List α} {start : β} {e : ε} :
    items.foldlM f start = .error e ↔
      ∃ before item after mid, items = before ++ item :: after ∧ before.foldlM f start = .ok mid ∧ f mid item = .error e := by
  constructor
  · intro h
    induction items generalizing start with
    | nil => cases h
    | cons first items ih =>
      rw [List.foldlM_cons] at h
      rcases bind_eq_error_iff.1 h with hfirst | ⟨next, hfirst, hrest⟩
      · exact ⟨[], first, items, start, rfl, rfl, hfirst⟩
      · obtain ⟨before, item, after, mid, rfl, hbefore, hitem⟩ := ih hrest
        refine ⟨first :: before, item, after, mid, rfl, ?_, hitem⟩
        rw [List.foldlM_cons]
        exact bind_eq_ok_iff.2 ⟨next, hfirst, hbefore⟩
  · rintro ⟨before, item, after, mid, rfl, hbefore, hitem⟩
    rw [List.foldlM_append]
    refine bind_eq_error_iff.2 (.inr ⟨mid, hbefore, ?_⟩)
    rw [List.foldlM_cons]
    exact bind_eq_error_iff.2 (.inl hitem)

end Bracketry
