import Bracketry.Proofs.Lockstep

/-!
# Recorded operations

What a pass asks of its backend and what it is answered, written down as it goes.

* `Asked` : one operation, with the answer unless it stopped;
* `Recorded` : a state, and the operations so far, latest first;
* `Backend.recorded` : the backend that writes down what it is asked; `Recorded.forget_evaluate` says that it changes nothing else;
* `Recorded.suffix_step`, `Recorded.suffix_run` : what has been written down stays;
* `Recorded.Leaves`, `Action.Asks` : a property of what an action gives together with what it leaves on record, and one of the record
  when it stops.
-/

namespace Bracketry

variable {σ V A : Type}

/-- An operation that a backend was asked for, with the answer that other operations may depend on. An operation that stopped gave
none. -/
inductive Asked (V A : Type) where
  | literal (value : Int64) (answer : Option V)
  | parameter (answer : Option V)
  | resolveAccessor (value : V) (answer : Option A)
  | applyBuiltin (address : A) (op : Builtin)
  | assign (address : A) (value : V)
  | call (name : String) (address : A)
  | resolve (address : A) (answer : Option V)
  | enterLoop
  | testLoop (address : A) (answer : Option LoopEntry)
  | exitLoop (address : A) (answer : Option LoopExit)
deriving DecidableEq, Repr

structure Recorded (σ V A : Type) where
  state : σ
  /-- The operations so far, latest first. -/
  asked : List (Asked V A) := []

namespace Recorded
variable {α : Type}

/-- Performs an operation and writes it down, whatever comes of it. -/
def note (entry : Option α → Asked V A) (x : Action σ α) : Action (Recorded σ V A) α := fun ⟨state, asked⟩ =>
  match x state with
  | .ok a state => .ok a ⟨state, entry (some a) :: asked⟩
  | .error stop state => .error stop ⟨state, entry none :: asked⟩

def left : EStateM.Result Stop (Recorded σ V A) α → List (Asked V A)
  | .ok _ recorded | .error _ recorded => recorded.asked

/-- A value and the record that is left with it have one property, or the record that is left without a value has the other. -/
def Leaves (Q : α → List (Asked V A) → Prop) (E : List (Asked V A) → Prop) : EStateM.Result Stop (Recorded σ V A) α → Prop
  | .ok a recorded => Q a recorded.asked
  | .error _ recorded => E recorded.asked

def forget : EStateM.Result Stop (Recorded σ V A) α → EStateM.Result Stop σ α
  | .ok a recorded => .ok a recorded.state
  | .error stop recorded => .error stop recorded.state

end Recorded

def Backend.recorded (b : Backend σ V A) : Backend (Recorded σ V A) V A where
  literal value := Recorded.note (.literal value) (b.literal value)
  parameter := Recorded.note .parameter b.parameter
  resolveAccessor value := Recorded.note (.resolveAccessor value) (b.resolveAccessor value)
  applyBuiltin address op := Recorded.note (fun _ => .applyBuiltin address op) (b.applyBuiltin address op)
  assign address value := Recorded.note (fun _ => .assign address value) (b.assign address value)
  call name address := Recorded.note (fun _ => .call name address) (b.call name address)
  resolve address := Recorded.note (.resolve address) (b.resolve address)
  enterLoop := Recorded.note (fun _ => .enterLoop) b.enterLoop
  testLoop address := Recorded.note (.testLoop address) (b.testLoop address)
  exitLoop address := Recorded.note (.exitLoop address) (b.exitLoop address)
  describe := b.describe

namespace Recorded
variable {α : Type} {b : Backend σ V A} {program : Program}

theorem asked_of_note {entry : Option α → Asked V A} {x : Action σ α} {recorded after : Recorded σ V A} {a : α}
    (h : note entry x recorded = .ok a after) : after.asked = entry (some a) :: recorded.asked := by
  unfold note at h
  dsimp only at h
  cases hx : x recorded.state <;> rw [hx] at h <;> cases h
  rfl

theorem asked_of_note_error {entry : Option α → Asked V A} {x : Action σ α} {recorded after : Recorded σ V A} {stop : Stop}
    (h : note entry x recorded = .error stop after) : after.asked = entry none :: recorded.asked := by
  unfold note at h
  dsimp only at h
  cases hx : x recorded.state <;> rw [hx] at h <;> cases h
  rfl

/-! ## Recording changes nothing -/

abbrev forgetting (σ V A : Type) : Relator (Recorded σ V A) σ := .abreast fun recorded state => recorded.state = state

theorem note_forgets (entry : Option α → Asked V A) (x : Action σ α) : (forgetting σ V A).Rel Eq (note entry x) x := by
  rintro ⟨state, asked⟩ _ rfl
  unfold note
  dsimp only
  cases x state <;> exact ⟨rfl, rfl⟩

theorem recorded_forgets (b : Backend σ V A) : b.recorded.Alike (forgetting σ V A) b where
  literal _ := note_forgets _ _
  parameter := note_forgets _ _
  resolveAccessor _ := note_forgets _ _
  applyBuiltin address op := note_forgets (fun _ => .applyBuiltin address op) (b.applyBuiltin address op)
  assign address value := note_forgets (fun _ => .assign address value) (b.assign address value)
  call name address := note_forgets (fun _ => .call name address) (b.call name address)
  resolve _ := note_forgets _ _
  enterLoop := note_forgets (fun _ => .enterLoop) b.enterLoop
  testLoop _ := note_forgets _ _
  exitLoop _ := note_forgets _ _
  describe := rfl

theorem forget_evaluate (b : Backend σ V A) (program : Program) (fuel : Nat) (body : List Token) (recorded : Recorded σ V A) :
    forget (evaluate b.recorded program fuel body recorded) = evaluate b program fuel body recorded.state :=
  (Pass.run_alike program (recorded_forgets b) (Relator.abreast_keepsFaults _) fuel { rest := body } recorded _ rfl).forget_eq
    (fun _ _ => rfl) fun _ _ => rfl

/-! ## A record only grows -/

abbrev growing (σ : Type) (asked : List (Asked V A)) : Relator (Recorded σ V A) (Recorded σ V A) :=
  .keeping fun recorded => asked <:+ recorded.asked

theorem note_grows (asked : List (Asked V A)) (entry : Option α → Asked V A) (x : Action σ α) :
    (growing σ asked).Rel Eq (note entry x) (note entry x) := by
  refine Relator.keeping_iff.2 fun ⟨state, earlier⟩ h => ?_
  have hentry : ∀ answer, asked <:+ entry answer :: earlier := fun answer => List.IsSuffix.trans h (List.suffix_cons _ _)
  unfold note
  dsimp only
  cases x state <;> exact hentry _

theorem recorded_grows (asked : List (Asked V A)) (b : Backend σ V A) : b.recorded.Alike (growing σ asked) b.recorded where
  literal _ := note_grows _ _ _
  parameter := note_grows _ _ _
  resolveAccessor _ := note_grows _ _ _
  applyBuiltin address op := note_grows asked (fun _ => .applyBuiltin address op) (b.applyBuiltin address op)
  assign address value := note_grows asked (fun _ => .assign address value) (b.assign address value)
  call name address := note_grows asked (fun _ => .call name address) (b.call name address)
  resolve _ := note_grows _ _ _
  enterLoop := note_grows asked (fun _ => .enterLoop) b.enterLoop
  testLoop _ := note_grows _ _ _
  exitLoop _ := note_grows _ _ _
  describe := rfl

theorem suffix_left {R : α → α → Prop} {x : Action (Recorded σ V A) α} (h : ∀ asked, (growing σ asked).Rel R x x)
    (recorded : Recorded σ V A) : recorded.asked <:+ left (x recorded) := by
  have hgrows := h recorded.asked recorded recorded ⟨rfl, List.suffix_rfl⟩
  cases hx : x recorded with
  | ok a after =>
    rw [hx] at hgrows
    exact hgrows.2.2
  | error stop after =>
    rw [hx] at hgrows
    exact hgrows.2.2

theorem suffix_step (b : Backend σ V A) (program : Program) (pass : Pass V A) (token : Token) (recorded : Recorded σ V A) :
    recorded.asked <:+ left (Pass.step b.recorded program pass token recorded) := by
  refine suffix_left (R := Pass.Matches Eq Eq) (fun asked => ?_) recorded
  have hfaults : (growing σ asked).KeepsFaults := Relator.abreast_keepsFaults _
  exact Pass.step_matches ((recorded_grows asked b).matches hfaults program) hfaults
    ⟨rfl, entries_matches_refl pass.stack, rfl⟩ token

theorem suffix_run (fuel : Nat) (pass : Pass V A) (recorded : Recorded σ V A) :
    recorded.asked <:+ left (Pass.run b.recorded program fuel pass recorded) :=
  suffix_left (fun asked => Pass.run_alike program (recorded_grows asked b) (Relator.abreast_keepsFaults _) fuel pass) recorded

end Recorded

/-! ## What an action asks -/

namespace Action
variable {α β : Type} {asked : List (Asked V A)} {Q Q' : α → List (Asked V A) → Prop} {R : β → List (Asked V A) → Prop}
  {E E' : List (Asked V A) → Prop}

/-- From this record on, the action leaves a record and a value with one property, or a record with the other and no value. -/
def Asks (x : Action (Recorded σ V A) α) (asked : List (Asked V A)) (Q : α → List (Asked V A) → Prop)
    (E : List (Asked V A) → Prop) : Prop :=
  ∀ state, Recorded.Leaves Q E (x ⟨state, asked⟩)

theorem of_asks_of_ok {x : Action (Recorded σ V A) α} {recorded after : Recorded σ V A} {a : α} (h : Asks x recorded.asked Q E)
    (heq : x recorded = .ok a after) : Q a after.asked := by
  have hresult := h recorded.state
  rwa [show x ⟨recorded.state, recorded.asked⟩ = _ from heq] at hresult

theorem of_asks_of_error {x : Action (Recorded σ V A) α} {recorded after : Recorded σ V A} {stop : Stop}
    (h : Asks x recorded.asked Q E) (heq : x recorded = .error stop after) : E after.asked := by
  have hresult := h recorded.state
  rwa [show x ⟨recorded.state, recorded.asked⟩ = _ from heq] at hresult

theorem left_of_asks {P : List (Asked V A) → Prop} {x : Action (Recorded σ V A) α} (h : Asks x asked (fun _ => P) P) (state : σ) :
    P (Recorded.left (x ⟨state, asked⟩)) := by
  have hresult := h state
  cases hx : x ⟨state, asked⟩ with
  | ok a after => rwa [hx] at hresult
  | error stop after => rwa [hx] at hresult

theorem asks_pure {a : α} (h : Q a asked) : Asks (pure a : Action (Recorded σ V A) α) asked Q E := fun _ => h

theorem asks_fault {error : Error} (h : E asked) : Asks (fault error : Action (Recorded σ V A) α) asked Q E := fun _ => h

theorem asks_note {entry : Option α → Asked V A} {x : Action σ α} (hok : ∀ a, Q a (entry (some a) :: asked))
    (herror : E (entry none :: asked)) : Asks (Recorded.note entry x) asked Q E := by
  intro state
  unfold Recorded.note
  dsimp only
  cases x state with
  | ok a state => exact hok a
  | error stop state => exact herror

theorem asks_told (entry : Asked V A) {x : Action σ α} (hok : ∀ a, Q a (entry :: asked)) (herror : E (entry :: asked)) :
    Asks (Recorded.note (fun _ => entry) x) asked Q E := asks_note hok herror

theorem asks_bind {x : Action (Recorded σ V A) α} {f : α → Action (Recorded σ V A) β} (hx : Asks x asked Q E)
    (hf : ∀ a later, Q a later → Asks (f a) later R E) : Asks (x >>= f) asked R E := by
  intro state
  have hresult := hx state
  cases heq : x ⟨state, asked⟩ with
  | ok a after =>
    rw [heq] at hresult
    rw [bind_of_ok heq]
    exact hf a after.asked hresult after.state
  | error stop after =>
    rw [heq] at hresult
    rw [bind_of_error heq]
    exact hresult

theorem asks_mono (hQ : ∀ a later, Q a later → Q' a later) (hE : ∀ later, E later → E' later)
    {x : Action (Recorded σ V A) α} (hx : Asks x asked Q E) : Asks x asked Q' E' := by
  intro state
  have hresult := hx state
  cases heq : x ⟨state, asked⟩ with
  | ok a after =>
    rw [heq] at hresult
    exact hQ a after.asked hresult
  | error stop after =>
    rw [heq] at hresult
    exact hE after.asked hresult

end Action

end Bracketry
