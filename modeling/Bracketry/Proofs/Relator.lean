import Bracketry.Eval.Pass

/-!
# Relations between actions

Two evaluations that ask for the same operations in the same order are alike as soon as the operations are.

* `Exhausted` : a result that is none, since the fuel was used up;
* `Below` : an action does what another does, unless its fuel is used up first;
* `Error.OfEvaluation` : the errors that an evaluation finds by itself;
* `Relator` : a relation between the actions of two states that results and sequences respect; `Relator.below`,
  `Relator.alongside`, `Relator.abreast`, `Relator.agreeing`, `Relator.excusing` and `Relator.keeping` are six;
* `Backend.Alike` : two backends whose operations are related.
-/

namespace Bracketry

def Exhausted {σ α : Type} : EStateM.Result Stop σ α → Prop
  | .error .outOfFuel _ => True
  | _ => False

namespace Action
variable {σ α β : Type} {x : Action σ α} {f : α → Action σ β} {s s' : σ}

theorem bind_of_ok {a : α} (h : x s = .ok a s') : (x >>= f) s = f a s' := by
  change EStateM.bind x f s = _
  rw [EStateM.bind, h]

theorem bind_of_error {stop : Stop} (h : x s = .error stop s') : (x >>= f) s = .error stop s' := by
  change EStateM.bind x f s = _
  rw [EStateM.bind, h]

theorem of_bind_eq_ok {b : β} (h : (x >>= f) s = .ok b s') : ∃ a mid, x s = .ok a mid ∧ f a mid = .ok b s' := by
  cases hx : x s with
  | ok a mid => exact ⟨a, mid, rfl, (bind_of_ok hx).symm.trans h⟩
  | error stop mid => rw [bind_of_error hx] at h; cases h

theorem of_bind_eq_error {stop : Stop} (h : (x >>= f) s = .error stop s') :
    x s = .error stop s' ∨ ∃ a mid, x s = .ok a mid ∧ f a mid = .error stop s' := by
  cases hx : x s with
  | ok a mid => exact .inr ⟨a, mid, rfl, (bind_of_ok hx).symm.trans h⟩
  | error stop' mid =>
    rw [bind_of_error hx] at h
    cases h
    exact .inl rfl

theorem exhausted_bind (h : Exhausted (x s)) : Exhausted ((x >>= f) s) := by
  cases hx : x s with
  | ok a mid =>
    rw [hx] at h
    exact h.elim
  | error stop mid =>
    rw [hx] at h
    rw [bind_of_error hx]
    cases stop with
    | fault error => exact h.elim
    | outOfFuel => trivial

end Action

/-! ## Less fuel -/

/-- The second action does what the first does, unless the first one's fuel is used up. -/
def Below {σ α : Type} (x y : Action σ α) : Prop := ∀ s, Exhausted (x s) ∨ x s = y s

namespace Below
variable {σ α β : Type}

theorem refl (x : Action σ α) : Below x x := fun _ => .inr rfl

theorem exhausted (x : Action σ α) : Below Action.exhausted x := fun _ => .inl trivial

theorem trans {x y z : Action σ α} (hxy : Below x y) (hyz : Below y z) : Below x z := by
  intro s
  rcases hxy s with h | h
  · exact .inl h
  · rw [h]
    exact hyz s

/-- What has ended with less fuel ends so with more. -/
theorem eq_of_not_exhausted {x y : Action σ α} {s : σ} (h : Below x y) (hx : ¬Exhausted (x s)) : y s = x s := by
  rcases h s with hexhausted | heq
  · exact absurd hexhausted hx
  · exact heq.symm

theorem bind {x y : Action σ α} {f g : α → Action σ β} (hxy : Below x y) (hfg : ∀ a, Below (f a) (g a)) :
    Below (x >>= f) (y >>= g) := by
  intro s
  rcases hxy s with h | h
  · exact .inl (Action.exhausted_bind h)
  · cases hx : x s with
    | ok a s' =>
      rw [Action.bind_of_ok hx, Action.bind_of_ok (h.symm.trans hx)]
      exact hfg a s'
    | error stop s' =>
      rw [Action.bind_of_error hx, Action.bind_of_error (h.symm.trans hx)]
      exact .inr rfl

end Below

/-! ## Relators -/

/-- The evaluation of a body finds these errors by itself. All others come from the operations that it asks for. -/
inductive Error.OfEvaluation : Error → Prop where
  | invalidAccessor (description : String) : OfEvaluation (.invalidAccessor description)
  | unknownToken (text : String) : OfEvaluation (.unknownToken text)
  | structural (fault : StructureFault) : OfEvaluation (.structural fault)

/-- A relation between actions on two states, for each relation between their values. Results and sequences respect it. -/
structure Relator (σ τ : Type) where
  Rel : {α β : Type} → (α → β → Prop) → Action σ α → Action τ β → Prop
  /-- Related values are related results. -/
  pure {α β : Type} {R : α → β → Prop} {a : α} {b : β} (h : R a b) : Rel R (Pure.pure a) (Pure.pure b)
  /-- Related actions that go on in related ways are related. -/
  bind {α β γ δ : Type} {R : α → β → Prop} {S : γ → δ → Prop} {x : Action σ α} {y : Action τ β}
    {f : α → Action σ γ} {g : β → Action τ δ} (hxy : Rel R x y) (hfg : ∀ a b, R a b → Rel S (f a) (g b)) :
    Rel S (x >>= f) (y >>= g)
  /-- Two actions whose fuel is used up are related. -/
  exhausted {α β : Type} (R : α → β → Prop) : Rel R Action.exhausted Action.exhausted

namespace Relator
variable {σ τ α β : Type}

def KeepsFaults (rel : Relator σ τ) : Prop :=
  ∀ {error : Error}, error.OfEvaluation → ∀ α : Type, rel.Rel (Eq : α → α → Prop) (Action.fault error) (Action.fault error)

theorem bind_eq (rel : Relator σ τ) {γ : Type} {R : β → γ → Prop} {x : Action σ α} {y : Action τ α} {f : α → Action σ β}
    {g : α → Action τ γ} (hxy : rel.Rel Eq x y) (hfg : ∀ a, rel.Rel R (f a) (g a)) :
    rel.Rel R (x >>= f) (y >>= g) := by
  refine rel.bind hxy ?_
  rintro a _ rfl
  exact hfg a

/-- Results with related values and related states, or with one stop and related states. -/
def Abreast (S : σ → τ → Prop) (R : α → β → Prop) : EStateM.Result Stop σ α → EStateM.Result Stop τ β → Prop
  | .ok a s, .ok b t => R a b ∧ S s t
  | .error stop s, .error stop' t => stop = stop' ∧ S s t
  | _, _ => False

theorem abreast_eq_iff {r r' : EStateM.Result Stop σ α} : Abreast Eq Eq r r' ↔ r = r' := by
  cases r <;> cases r' <;> simp [Abreast]

theorem Abreast.forget_eq {f : σ → τ} {forget : EStateM.Result Stop σ α → EStateM.Result Stop τ α}
    (hok : ∀ a s, forget (.ok a s) = .ok a (f s)) (herror : ∀ stop s, forget (.error stop s) = .error stop (f s))
    {r : EStateM.Result Stop σ α} {r' : EStateM.Result Stop τ α} (h : Abreast (fun s t => f s = t) Eq r r') : forget r = r' := by
  cases r with
  | ok a s =>
    cases r' with
    | ok b t =>
      obtain ⟨rfl, rfl⟩ := h
      exact hok a s
    | error stop t => exact h.elim
  | error stop s =>
    cases r' with
    | ok b t => exact h.elim
    | error stop' t =>
      obtain ⟨rfl, rfl⟩ := h
      exact herror stop s

theorem Abreast.bind_cases {γ δ : Type} {S : σ → τ → Prop} {R : α → β → Prop} {x : Action σ α} {y : Action τ β}
    {f : α → Action σ γ} {g : β → Action τ δ} {s : σ} {t : τ} (h : Abreast S R (x s) (y t))
    {P : EStateM.Result Stop σ γ → EStateM.Result Stop τ δ → Prop}
    (hok : ∀ {a b s' t'}, x s = .ok a s' → y t = .ok b t' → R a b → S s' t' → P (f a s') (g b t'))
    (herror : ∀ {stop s' t'}, x s = .error stop s' → y t = .error stop t' → S s' t' → P (.error stop s') (.error stop t')) :
    P ((x >>= f) s) ((y >>= g) t) := by
  cases hx : x s with
  | ok a s' =>
    cases hy : y t with
    | ok b t' =>
      rw [hx, hy] at h
      rw [Action.bind_of_ok hx, Action.bind_of_ok hy]
      exact hok hx hy h.1 h.2
    | error stop t' => rw [hx, hy] at h; exact h.elim
  | error stop s' =>
    cases hy : y t with
    | ok b t' => rw [hx, hy] at h; exact h.elim
    | error stop' t' =>
      rw [hx, hy] at h
      obtain ⟨rfl, hst⟩ := h
      rw [Action.bind_of_error hx, Action.bind_of_error hy]
      exact herror hx hy hst

def below (σ : Type) : Relator σ σ where
  Rel R x y := ∀ s, Exhausted (x s) ∨ Abreast Eq R (x s) (y s)
  pure h := fun _ => .inr ⟨h, rfl⟩
  bind {α β γ δ R S x y f g} hxy hfg := by
    intro s
    rcases hxy s with h | h
    · exact .inl (Action.exhausted_bind h)
    · refine h.bind_cases (P := fun r r' => Exhausted r ∨ Abreast Eq S r r') ?_ fun _ _ hs => .inr ⟨rfl, hs⟩
      rintro a b s' _ - - hab rfl
      exact hfg a b hab s'
  exhausted _ := fun _ => .inl trivial

theorem below_eq_iff {x y : Action σ α} : (below σ).Rel Eq x y ↔ Below x y :=
  forall_congr' fun _ => or_congr_right abreast_eq_iff

theorem below_keepsFaults : (below σ).KeepsFaults := fun _ _ _ => .inr ⟨rfl, rfl⟩

/-- Results with related values and related states, or two lacks of fuel. Some stops of the first side are excused, and then
nothing is said about the second. -/
def Alongside (excused : Stop → Prop) (S : σ → τ → Prop) (R : α → β → Prop) :
    EStateM.Result Stop σ α → EStateM.Result Stop τ β → Prop
  | .ok a s, .ok b t => R a b ∧ S s t
  | .ok _ _, .error _ _ => False
  | .error stop _, r => excused stop ∨ stop = .outOfFuel ∧ Exhausted r

theorem alongside_of_ok {excused : Stop → Prop} {S : σ → τ → Prop} {R : α → β → Prop} {x : Action σ α} {y : Action τ β}
    {s s' : σ} {t t' : τ} {a : α} {b : β} (hx : x s = .ok a s') (hy : y t = .ok b t') (hab : R a b) (hst : S s' t') :
    Alongside excused S R (x s) (y t) := by
  rw [hx, hy]
  exact ⟨hab, hst⟩

theorem exists_of_alongside {excused : Stop → Prop} {S : σ → τ → Prop} {R : α → β → Prop} {a : α} {s : σ}
    {r : EStateM.Result Stop τ β} (h : Alongside excused S R (.ok a s) r) : ∃ b t, r = .ok b t ∧ R a b ∧ S s t := by
  cases r with
  | ok b t => exact ⟨b, t, rfl, h.1, h.2⟩
  | error stop t => exact h.elim

def alongside (excused : Stop → Prop) (S : σ → τ → Prop) : Relator σ τ where
  Rel R x y := ∀ s t, S s t → Alongside excused S R (x s) (y t)
  pure h := fun _ _ hst => ⟨h, hst⟩
  bind {α β γ δ R R' x y f g} hxy hfg := by
    intro s t hst
    have h := hxy s t hst
    cases hx : x s with
    | ok a s' =>
      cases hy : y t with
      | ok b t' =>
        rw [hx, hy] at h
        rw [Action.bind_of_ok hx, Action.bind_of_ok hy]
        exact hfg a b h.1 s' t' h.2
      | error stop t' =>
        rw [hx, hy] at h
        exact h.elim
    | error stop s' =>
      rw [hx] at h
      rw [Action.bind_of_error hx]
      exact h.imp id fun ⟨hstop, hexhausted⟩ => ⟨hstop, Action.exhausted_bind hexhausted⟩
  exhausted _ := fun _ _ _ => .inr ⟨rfl, trivial⟩

def abreast (S : σ → τ → Prop) : Relator σ τ where
  Rel R x y := ∀ s t, S s t → Abreast S R (x s) (y t)
  pure h := fun _ _ hst => ⟨h, hst⟩
  bind hxy hfg := fun s t hst =>
    (hxy s t hst).bind_cases (fun _ _ hab hst' => hfg _ _ hab _ _ hst') fun _ _ hst' => ⟨rfl, hst'⟩
  exhausted _ := fun _ _ hst => ⟨rfl, hst⟩

theorem abreast_keepsFaults (S : σ → τ → Prop) : (abreast S).KeepsFaults := fun _ _ _ _ hst => ⟨rfl, hst⟩

/-- Results with related values and related states, or two stops. -/
def Agreeing (S : σ → τ → Prop) (R : α → β → Prop) : EStateM.Result Stop σ α → EStateM.Result Stop τ β → Prop
  | .ok a s, .ok b t => R a b ∧ S s t
  | .error _ _, .error _ _ => True
  | _, _ => False

def agreeing (S : σ → τ → Prop) : Relator σ τ where
  Rel R x y := ∀ s t, S s t → Agreeing S R (x s) (y t)
  pure h := fun _ _ hst => ⟨h, hst⟩
  bind {α β γ δ R R' x y f g} hxy hfg := by
    intro s t hst
    have h := hxy s t hst
    cases hx : x s with
    | ok a s' =>
      cases hy : y t with
      | ok b t' =>
        rw [hx, hy] at h
        rw [Action.bind_of_ok hx, Action.bind_of_ok hy]
        exact hfg a b h.1 s' t' h.2
      | error stop t' =>
        rw [hx, hy] at h
        exact h.elim
    | error stop s' =>
      cases hy : y t with
      | ok b t' =>
        rw [hx, hy] at h
        exact h.elim
      | error stop' t' =>
        rw [Action.bind_of_error hx, Action.bind_of_error hy]
        trivial
  exhausted _ := fun _ _ _ => trivial

theorem agreeing_fault {S : σ → τ → Prop} {R : α → β → Prop} (error error' : Error) :
    (agreeing S).Rel R (Action.fault error) (Action.fault error') := fun _ _ _ => trivial

theorem agreeing_keepsFaults (S : σ → τ → Prop) : (agreeing S).KeepsFaults := fun _ _ => agreeing_fault _ _

theorem agreeing_refl (x : Action σ α) : (agreeing Eq).Rel Eq x x := by
  rintro s _ rfl
  cases x s with
  | ok a s' => exact ⟨rfl, rfl⟩
  | error stop s' => trivial

/-- What agrees with an action agrees with every action that ends well as it does. -/
theorem Agreeing.trans_eq {S : σ → τ → Prop} {r : EStateM.Result Stop σ α} {r' r'' : EStateM.Result Stop τ α}
    (h : Agreeing S Eq r r') (h' : Agreeing Eq Eq r'' r') : Agreeing S Eq r r'' := by
  cases r <;> cases r' <;> cases r'' <;> simp_all [Agreeing]

def Excused (excused : Stop → Prop) : EStateM.Result Stop σ α → Prop
  | .ok _ _ => False
  | .error stop _ => excused stop

theorem excused_bind {excused : Stop → Prop} {x : Action σ α} {f : α → Action σ β} {s : σ} (h : Excused excused (x s)) :
    Excused excused ((x >>= f) s) := by
  cases hx : x s with
  | ok a mid =>
    rw [hx] at h
    exact h.elim
  | error stop mid =>
    rw [hx] at h
    rw [Action.bind_of_error hx]
    exact h

/-- The second action does what the first does, unless the first comes to a stop that is excused. -/
def excusing (excused : Stop → Prop) (σ : Type) : Relator σ σ where
  Rel R x y := ∀ s, Excused excused (x s) ∨ Abreast Eq R (x s) (y s)
  pure h := fun _ => .inr ⟨h, rfl⟩
  bind {α β γ δ R S x y f g} hxy hfg := by
    intro s
    rcases hxy s with h | h
    · exact .inl (excused_bind h)
    · refine h.bind_cases (P := fun r r' => Excused excused r ∨ Abreast Eq S r r') ?_ fun _ _ hs => .inr ⟨rfl, hs⟩
      rintro a b s' _ - - hab rfl
      exact hfg a b hab s'
  exhausted _ := fun _ => .inr ⟨rfl, rfl⟩

theorem excusing_eq_iff {excused : Stop → Prop} {x y : Action σ α} :
    (excusing excused σ).Rel Eq x y ↔ ∀ s, Excused excused (x s) ∨ x s = y s :=
  forall_congr' fun _ => or_congr_right abreast_eq_iff

theorem excusing_refl {excused : Stop → Prop} (x : Action σ α) : (excusing excused σ).Rel Eq x x :=
  excusing_eq_iff.2 fun _ => .inr rfl

theorem excusing_keepsFaults {excused : Stop → Prop} : (excusing excused σ).KeepsFaults := fun _ _ _ => .inr ⟨rfl, rfl⟩

/-- The state that is left has a property, whatever the result. -/
def Leaves (I : σ → Prop) : EStateM.Result Stop σ α → Prop
  | .ok _ s | .error _ s => I s

/-- Actions that keep a property of the state: both sides are one action. -/
abbrev keeping (I : σ → Prop) : Relator σ σ := abreast fun s t => s = t ∧ I s

theorem keeping_iff {I : σ → Prop} {x : Action σ α} : (keeping I).Rel Eq x x ↔ ∀ s, I s → Leaves I (x s) := by
  constructor
  · intro h s hs
    have hx := h s s ⟨rfl, hs⟩
    cases heq : x s with
    | ok a s' =>
      rw [heq] at hx
      exact hx.2.2
    | error stop s' =>
      rw [heq] at hx
      exact hx.2.2
  · rintro h s _ ⟨rfl, hs⟩
    have hx := h s hs
    cases heq : x s with
    | ok a s' =>
      rw [heq] at hx
      exact ⟨rfl, rfl, hx⟩
    | error stop s' =>
      rw [heq] at hx
      exact ⟨rfl, rfl, hx⟩

/-- From a state with the property both actions come to the same end. -/
theorem eq_of_keeping {I : σ → Prop} {x y : Action σ α} (h : (keeping I).Rel Eq x y) {s : σ} (hs : I s) : x s = y s := by
  have hxy := h s s ⟨rfl, hs⟩
  cases hx : x s <;> cases hy : y s <;> simp_all [Abreast]

end Relator

/-! ## Backends with related operations -/

structure Backend.Alike {σ τ V A : Type} (rel : Relator σ τ) (b : Backend σ V A) (c : Backend τ V A) : Prop where
  literal (value : Int64) : rel.Rel Eq (b.literal value) (c.literal value)
  parameter : rel.Rel Eq b.parameter c.parameter
  resolveAccessor (value : V) : rel.Rel Eq (b.resolveAccessor value) (c.resolveAccessor value)
  applyBuiltin (address : A) (op : Builtin) : rel.Rel Eq (b.applyBuiltin address op) (c.applyBuiltin address op)
  assign (address : A) (value : V) : rel.Rel Eq (b.assign address value) (c.assign address value)
  call (name : String) (address : A) : rel.Rel Eq (b.call name address) (c.call name address)
  resolve (address : A) : rel.Rel Eq (b.resolve address) (c.resolve address)
  enterLoop : rel.Rel Eq b.enterLoop c.enterLoop
  testLoop (address : A) : rel.Rel Eq (b.testLoop address) (c.testLoop address)
  exitLoop (address : A) : rel.Rel Eq (b.exitLoop address) (c.exitLoop address)
  describe : b.describe = c.describe

theorem Backend.alike_below_refl {σ V A : Type} (b : Backend σ V A) : b.Alike (.below σ) b where
  literal _ := Relator.below_eq_iff.2 (Below.refl _)
  parameter := Relator.below_eq_iff.2 (Below.refl _)
  resolveAccessor _ := Relator.below_eq_iff.2 (Below.refl _)
  applyBuiltin _ _ := Relator.below_eq_iff.2 (Below.refl _)
  assign _ _ := Relator.below_eq_iff.2 (Below.refl _)
  call _ _ := Relator.below_eq_iff.2 (Below.refl _)
  resolve _ := Relator.below_eq_iff.2 (Below.refl _)
  enterLoop := Relator.below_eq_iff.2 (Below.refl _)
  testLoop _ := Relator.below_eq_iff.2 (Below.refl _)
  exitLoop _ := Relator.below_eq_iff.2 (Below.refl _)
  describe := rfl

end Bracketry
