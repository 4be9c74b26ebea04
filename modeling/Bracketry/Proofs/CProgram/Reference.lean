import Bracketry.Proofs.CProgram.Execution
import Bracketry.Proofs.CProgram.Translatable

/-!
# What the generated program does

Writing a body in C and executing the lines is evaluating the body with the statement of each operation executed at once. The
value of an applicator is then no number but the cell itself, which is read whenever it is used.

* `Reference.backend` : the operations of a body with cells by reference;
* `Reference.call`, `Reference.run` : an application, and a whole program;
* `stages` : writing lines and executing them, as a relator;
* `execLines_eq_evaluate` : the lines of a body do what its evaluation by reference does;
* `Listing.call_eq`, `Listing.run_eq` : so do the routines and the whole program.
-/

namespace Bracketry.CProgram

/-! ## Bodies by reference -/

namespace Reference
variable (argument : Option UInt32) (callRoutine : String → UInt32 → Action State Unit)

/-- Executes a statement that is no test. -/
def perform (s : Statement) : Action State Unit := do
  let _ ← s.exec argument callRoutine

def applyBuiltin (address : Expr) : Builtin → Action State Unit
  | .increment => perform argument callRoutine (.increment address)
  | .decrement => perform argument callRoutine (.decrement address)
  | .output => perform argument callRoutine (.put address)
  | .input => perform argument callRoutine (.get address)
  | .nop => pure ()

/-- The operations of a body by reference. An address is an expression, and its value is found out when it is used. -/
def backend : Backend State Expr Expr where
  literal value := pure (.literal value)
  parameter := pure .parameter
  resolveAccessor value := pure value
  applyBuiltin := applyBuiltin argument callRoutine
  assign address value := perform argument callRoutine (.assign address value)
  call name address := perform argument callRoutine (.call name address)
  resolve address := pure address.cell
  enterLoop := pure ()
  testLoop address := do
    if ← (Statement.leaveUnless address).exec argument callRoutine then return .run
    else return .skip
  exitLoop _ := pure .again
  describe := Expr.describe

variable (program : Program)

def call : Nat → String → UInt32 → Action State Unit
  | 0, _, _ => Action.exhausted
  | fuel + 1, name, argument => match program.applications.lookup name with
    | none => Action.fault (.unknownToken name)
    | some body => (Forest.ofTokens body).evaluate (backend (some argument) (call fuel)) program fuel

/-- A whole program by reference, on an input and a zeroed array. -/
def run (dataSize fuel : Nat) (input : List UInt8) : EStateM.Result Stop State Unit :=
  (Forest.ofTokens program.entry).evaluate (backend none (call program fuel)) program fuel
    { memory := .zeroed dataSize, input }

/-- By reference the program ends with this output and these contents of the array. -/
def EndsWith (dataSize : Nat) (input output : List UInt8) (memory : Memory) : Prop :=
  ∃ fuel state, run program dataSize fuel input = .ok () state ∧ state.output = output ∧ state.memory = memory

end Reference

/-! ## Writing and executing -/

/-- The action writes the lines of the block and gives the value. -/
def Emits {α : Type} (x : Action Generator α) (a : α) (code : Code) : Prop :=
  ∀ depth lines, x ⟨depth, lines⟩ = .ok a ⟨depth, lines ++ (code.lines depth).toArray⟩

section
variable (argument : Option UInt32) (callRoutine : String → UInt32 → Action State Unit) (fuel : Nat)

/-- The action gives the value and does what the block does, behind which execution goes on. -/
structure Performs {α : Type} (y : Action State α) (a : α) (code : Code) : Prop where
  /-- What the block does. -/
  exec : code.exec argument callRoutine fuel = y >>= fun _ => pure true
  /-- The value. -/
  value : y = y >>= fun _ => pure a

/-- Writing and executing. The first action writes lines that do what the second does, or it never ends well. -/
def Stages {α β : Type} (R : α → β → Prop) (x : Action Generator α) (y : Action State β) : Prop :=
  (x.Gives fun _ => False) ∨ ∃ a b code, R a b ∧ Emits x a code ∧ Performs argument callRoutine fuel y b code

end

section
variable {argument : Option UInt32} {callRoutine : String → UInt32 → Action State Unit} {fuel : Nat} {α β γ δ : Type}

theorem emits_pure (a : α) : Emits (pure a) a .done := fun _ _ => congrArg (EStateM.Result.ok a) (by simp [Code.lines])

theorem emits_bind {x : Action Generator α} {f : α → Action Generator β} {a : α} {b : β} {code after : Code}
    (hx : Emits x a code) (hf : Emits (f a) b after) : Emits (x >>= f) b (code.append after) := by
  intro depth lines
  rw [Action.bind_of_ok (hx depth lines), hf, Code.lines_append]
  simp

theorem emits_emit {s : Statement} (plain : s.isPlain = true) :
    Emits (Generator.emit s) () (.statement s plain .done) := by
  intro depth lines
  change EStateM.Result.ok () (⟨depth, lines.push ⟨depth, s⟩⟩ : Generator) = _
  simp [Code.lines]

theorem performs_pure (b : β) : Performs argument callRoutine fuel (pure b) b .done :=
  ⟨rfl, rfl⟩

theorem performs_bind {y : Action State α} {g : α → Action State β} {a : α} {b : β} {code after : Code}
    (hy : Performs argument callRoutine fuel y a code) (hg : Performs argument callRoutine fuel (g a) b after) :
    Performs argument callRoutine fuel (y >>= g) b (code.append after) := by
  have heq : (y >>= g) = (y >>= fun _ => g a) := by
    rw [hy.value, bind_assoc, bind_assoc]
    simp only [pure_bind]
  refine ⟨?_, ?_⟩
  · rw [Code.exec_append, hy.exec, heq, bind_assoc, bind_assoc]
    simp only [pure_bind, if_true, hg.exec]
  · rw [heq, bind_assoc]
    exact congrArg _ (funext fun _ => hg.value)

theorem performs_perform {s : Statement} (plain : s.isPlain = true) (h : ∀ e, s ≠ .leaveUnless e) :
    Performs argument callRoutine fuel (Reference.perform argument callRoutine s) () (.statement s plain .done) := by
  refine ⟨?_, ?_⟩
  · rw [Code.exec, Statement.exec_eq_true h]
    simp only [Reference.perform, bind_assoc, pure_bind, if_true, Code.exec]
  · simp only [Reference.perform, bind_assoc, pure_bind]

variable (argument callRoutine fuel) in
def stages : Relator Generator State where
  Rel := Stages argument callRoutine fuel
  pure {α β R a b} h := .inr ⟨a, b, .done, h, emits_pure a, performs_pure b⟩
  bind {α β γ δ R S x y f g} hxy hfg := by
    rcases hxy with hnever | ⟨a, b, code, hab, hx, hy⟩
    · exact .inl (Action.gives_bind hnever fun _ h => h.elim)
    · rcases hfg a b hab with hnever | ⟨c, d, after, hcd, hf, hg⟩
      · refine .inl fun s c s' h => ?_
        rw [Action.bind_of_ok (hx s.depth s.lines)] at h
        exact hnever _ c s' h
      · exact .inr ⟨c, d, code.append after, hcd, emits_bind hx hf, performs_bind hy hg⟩
  exhausted _ := .inl fun _ _ _ h => by cases h

theorem stages_statement {s : Statement} (plain : s.isPlain = true) (h : ∀ e, s ≠ .leaveUnless e) :
    (stages argument callRoutine fuel).Rel Eq (Generator.emit s) (Reference.perform argument callRoutine s) :=
  .inr ⟨(), (), _, rfl, emits_emit plain, performs_perform plain h⟩

/-! ## The operations -/

variable {limits : Limits} {program : Program} {inApplication : Bool}

theorem address_stages (e : Expr) :
    (stages argument callRoutine fuel).Rel Eq (Generator.address limits e) (pure e) := by
  cases e with
  | literal value =>
    cases hcheck : limits.checkAddress value with
    | ok address =>
      have heq : Generator.address limits (.literal value) = (pure (.literal value) : Action Generator Expr) := by
        rw [Generator.address, hcheck]
        rfl
      rw [heq]
      exact (stages argument callRoutine fuel).pure rfl
    | error error =>
      refine .inl fun s e s' h => ?_
      have hok := Generator.address_gives value s e s' h
      rw [hcheck] at hok
      cases hok
  | parameter => exact (stages argument callRoutine fuel).pure rfl
  | cell index => exact (stages argument callRoutine fuel).pure rfl

variable (argument callRoutine fuel) in
/-- The operations of a translatable body are written as the statements that are executed by reference. -/
theorem generator_follows :
    (Generator.backend limits inApplication).Follows (stages argument callRoutine fuel)
      (translatable limits program inApplication) Eq Eq program (Reference.backend argument callRoutine) where
  accessor t ht := by
    cases t with
    | literal value => exact address_stages (.literal value)
    | parameter =>
      obtain rfl : inApplication = true := ht
      exact (stages argument callRoutine fuel).pure rfl
    | _ => cases ht
  resolveAccessor v w _ hvalue := hvalue ▸ address_stages v
  applyToken t a a' ht haddress := by
    subst haddress
    cases t with
    | builtin op =>
      cases op with
      | increment => exact stages_statement rfl fun _ h => by cases h
      | decrement => exact stages_statement rfl fun _ h => by cases h
      | output => exact stages_statement rfl fun _ h => by cases h
      | input => exact stages_statement rfl fun _ h => by cases h
      | nop => exact (stages argument callRoutine fuel).pure rfl
    | literal value => exact stages_statement rfl fun _ h => by cases h
    | parameter =>
      obtain rfl : inApplication = true := ht
      exact stages_statement rfl fun _ h => by cases h
    | identifier name =>
      change program.isApplication name = true at ht
      unfold Pass.applyToken
      simp only [ht, if_true]
      exact stages_statement rfl fun _ h => by cases h
    | _ => cases ht
  assign a a' v w _ haddress hvalue := by
    subst haddress hvalue
    exact stages_statement rfl fun _ h => by cases h
  resolve a a' haddress := haddress ▸ (stages argument callRoutine fuel).pure rfl

/-! ## Conditionals -/

variable (argument callRoutine fuel) in
/-- A turn of a conditional is written as the block of a loop, and the block is closed behind it. -/
def StagesTurn (x : Action Generator Bool) (y : Action State Bool) : Prop :=
  (x.Gives fun _ => False) ∨ ∃ code : Code, code.exec argument callRoutine fuel = y ∧
    ∀ depth lines, x ⟨depth, lines⟩ =
      .ok false ⟨depth - 1, lines ++ (code.lines depth).toArray ++ #[⟨depth - 1, .close⟩]⟩

theorem stagesTurn_bind {R : α → β → Prop} {x : Action Generator α} {y : Action State β} {f : α → Action Generator Bool}
    {g : β → Action State Bool} (hxy : Stages argument callRoutine fuel R x y)
    (hfg : ∀ a b, R a b → StagesTurn argument callRoutine fuel (f a) (g b)) :
    StagesTurn argument callRoutine fuel (x >>= f) (y >>= g) := by
  rcases hxy with hnever | ⟨a, b, code, hab, hx, hy⟩
  · exact .inl (Action.gives_bind hnever fun _ h => h.elim)
  · rcases hfg a b hab with hnever | ⟨after, hg, hf⟩
    · refine .inl fun s c s' h => ?_
      rw [Action.bind_of_ok (hx s.depth s.lines)] at h
      exact hnever _ c s' h
    · refine .inr ⟨code.append after, ?_, fun depth lines => ?_⟩
      · rw [Code.exec_append, hy.exec, hg, bind_assoc]
        simp only [pure_bind, if_true]
        rw [hy.value, bind_assoc, bind_assoc]
        simp only [pure_bind]
      · rw [Action.bind_of_ok (hx depth lines), hf, Code.lines_append]
        simp

theorem stagesTurn_turn (e : Expr) {x : Action Generator (List (Item Expr))}
    {y : Action State (List (Item Expr))} (hxy : Stages argument callRoutine fuel (fun _ _ => True) x y) :
    StagesTurn argument callRoutine fuel ((Generator.backend limits inApplication).turn e x)
      ((Reference.backend argument callRoutine).turn e y) := by
  rcases hxy with hnever | ⟨a, b, code, -, hx, hy⟩
  · refine .inl (Action.gives_bind ((Generator.backend_straight limits inApplication).testLoop e) ?_)
    rintro answer rfl
    exact Action.gives_bind hnever fun _ h => h.elim
  · have plain : (Statement.leaveUnless e).isPlain = true := rfl
    refine .inr ⟨.statement (.leaveUnless e) plain code, ?_, fun depth lines => ?_⟩
    · have hturn : (Reference.backend argument callRoutine).turn e y = (do
          if ← (Statement.leaveUnless e).exec argument callRoutine then
            let _ ← y
            return true
          else return false) := by
        simp only [Backend.turn, Reference.backend, bind_assoc]
        refine congrArg _ (funext fun goesOn => ?_)
        cases goesOn <;> simp
      rw [hturn, Code.exec, hy.exec]
    · have hturn : (Generator.backend limits inApplication).turn e x = (do
          Generator.emit (.leaveUnless e)
          let _ ← x
          Generator.outdent
          Generator.emit .close
          return false) := by
        simp only [Backend.turn, Generator.backend, bind_assoc, pure_bind]
      have hemit := emits_emit plain depth lines
      rw [hturn, Action.bind_of_ok hemit, Action.bind_of_ok (hx depth _)]
      change EStateM.Result.ok false (⟨depth - 1, Array.push _ ⟨depth - 1, .close⟩⟩ : Generator) = _
      simp [Code.lines]

theorem stages_repeating {x : Action Generator Bool} {y : Action State Bool} (hxy : StagesTurn argument callRoutine fuel x y)
    (turns : Nat) :
    Stages argument callRoutine fuel Eq
      ((Generator.backend limits inApplication).enterLoop >>= fun _ => Action.repeating x turns)
      ((Reference.backend argument callRoutine).enterLoop >>= fun _ => Action.repeating y fuel) := by
  rcases hxy with hnever | ⟨code, hcode, hx⟩
  · exact .inl (Action.gives_bind (Action.gives_any _) fun _ _ => Generator.repeating_gives hnever turns)
  -- The generator takes one turn and is done with the loop, the program takes as many as it has fuel for.
  · cases turns with
    | zero => exact .inl (Action.gives_bind (Action.gives_any _) fun _ _ _ _ _ h => by cases h)
    | succ turns =>
      refine .inr ⟨(), (), .loop code .done, rfl, fun depth lines => ?_, ?_, ?_⟩
      · have henter : (Generator.backend limits inApplication).enterLoop ⟨depth, lines⟩ =
            .ok () ⟨depth + 1, lines.push ⟨depth, .loop⟩⟩ := rfl
        rw [Action.bind_of_ok henter, Action.repeating, Action.bind_of_ok (hx (depth + 1) _)]
        change EStateM.Result.ok () (⟨depth, _⟩ : Generator) = _
        simp [Code.lines]
      · rw [Code.exec, hcode]
        rfl
      · exact (bind_pure_unit (m := Action State)).symm

theorem generator_loopsFollow (turns : Nat) :
    (Generator.backend limits inApplication).LoopsFollow (stages argument callRoutine fuel)
      (StagesTurn argument callRoutine fuel) Eq turns fuel (Reference.backend argument callRoutine) where
  bind := stagesTurn_bind
  turn {a _} haddress {_ _} hxy := haddress ▸ stagesTurn_turn a hxy
  repeating hxy := stages_repeating hxy turns

/-! ## Bodies and programs -/

/-- Executing the lines of a body is evaluating it by reference. -/
theorem execLines_eq_evaluate {body : List Token} {lines : List Line}
    (h : linesOf limits program inApplication body = .ok lines) (argument : Option UInt32)
    (callRoutine : String → UInt32 → Action State Unit) (fuel : Nat) :
    execLines argument callRoutine fuel lines =
      (Forest.ofTokens body).evaluate (Reference.backend argument callRoutine) program fuel := by
  obtain ⟨generator, hgenerate, rfl⟩ := exists_generator_of_linesOf h
  have hstages := Forest.evaluate_related (generator_follows argument callRoutine fuel)
    (generator_loopsFollow body.length) (fits_of_generate hgenerate)
  have hgenerator := (evaluate_of_generate hgenerate).2
  rcases hstages with hnever | ⟨a, b, code, -, hx, hy⟩
  · exact (hnever _ _ _ hgenerator).elim
  · have hlines : generator.lines.toList = code.lines 1 := by
      obtain ⟨-, rfl⟩ := EStateM.Result.ok.inj (hgenerator.symm.trans (hx 1 #[]))
      simp
    rw [execLines, hlines, Code.ofLines_lines, hy.exec, bind_assoc]
    simp only [pure_bind]
    exact bind_pure_unit (m := Action State)

theorem Listing.call_eq {listing : Listing} (h : Listing.ofProgram limits program = .ok listing) (fuel : Nat) :
    listing.call fuel = Reference.call program fuel := by
  induction fuel with
  | zero => rfl
  | succ fuel ih =>
    funext name argument
    rw [Listing.call, Reference.call, ih]
    rcases lookup_of_listing h name with ⟨hbody, hroutine⟩ | ⟨body, lines, hbody, hlines, hroutine⟩
    · rw [hbody, hroutine]
    · rw [hbody, hroutine]
      exact execLines_eq_evaluate hlines (some argument) _ fuel

theorem Listing.run_eq {listing : Listing} (h : Listing.ofProgram limits program = .ok listing) (fuel : Nat)
    (input : List UInt8) : listing.run fuel input = Reference.run program limits.dataSize fuel input := by
  obtain ⟨hsize, hmain⟩ := main_of_listing h
  rw [Listing.run, Reference.run, Listing.call_eq h, hsize, execLines_eq_evaluate hmain]

end

end Bracketry.CProgram
