import Bracketry.Proofs.Bookkeeping

/-!
# Finding the innermost open bracket

A pass looks at the top of its stack only, since whatever it finds there waits for an applicator. Here the innermost open bracket is
found in any other way, and an evaluation goes on as before.

* `Lookup` : a way to find the innermost open bracket; `Lookup.topmost` is that of a pass and `Lookup.search` goes down the stack;
* `Lookup.step`, `Lookup.evaluate` : one token and a whole body with the lookup in place of `Pass.innermost?`;
* `Lookup.Agrees`, `Lookup.step_eq` : what a lookup has to find for a token to do the same;
* `Lookup.evaluate_search` : an evaluation that searches is the evaluation of the body.
-/

namespace Bracketry

variable {σ V A : Type}

/-- A way to find the innermost open bracket of a stack. -/
abbrev Lookup (V A : Type) := List (Entry V A) → Option (Entry V A)

namespace Lookup

def topmost : Lookup V A := fun stack => Pass.innermost? { rest := [], stack }

/-- The first marker from the top. -/
def search : Lookup V A := List.find? Entry.isMarker

/-! ## Evaluation with a lookup -/

section Steps
variable (lookup : Lookup V A) (backend : Backend σ V A) (program : Program)

def deliverVoid (pass : Pass V A) : Action σ (Pass V A) :=
  match lookup pass.stack with
  | some .applicator => return pass.push .void
  | some (.conditional none) => Action.fault (.invalidAccessor ((Entry.void : Entry V A).describe backend.describe))
  | none | some (.conditional (some _)) => return pass
  | some _ => Action.structureFault .markerIsValue

def leaveConditional (pass : Pass V A) : Action σ (Pass V A) :=
  match pass.loops with
  | [] => Action.structureFault .loopStartMissing
  | _ :: loops => lookup.deliverVoid backend { pass with loops }

def bindAccessor (pass : Pass V A) (entry : Entry V A) : Action σ (Pass V A) := do
  let address ← Pass.accessor backend entry
  match ← backend.testLoop address with
  | .run =>
    match pass.stack with
    | .conditional _ :: stack => return { pass with stack := .conditional (some address) :: stack }
    | _ => Action.structureFault .noConditionalToBind
  | .skip =>
    match skipBody 0 pass.rest with
    | none => Action.structureFault .conditionalNotClosed
    | some rest =>
      match pass.stack with
      | .conditional _ :: stack => lookup.leaveConditional backend { pass with rest, stack }
      | _ => Action.structureFault .noConditionalToSkip

def deliver (pass : Pass V A) (entry : Entry V A) : Action σ (Pass V A) :=
  match lookup pass.stack, entry with
  | some .applicator, entry => return pass.push entry
  | some (.conditional none), entry => lookup.bindAccessor backend pass entry
  | some (.conditional (some address)), .pending token => do
    Pass.applyToken backend program address token
    return pass
  | none, .pending token => Action.structureFault (.outsideBrackets token)
  | none, _ | some (.conditional (some _)), _ => return pass
  | some _, _ => Action.structureFault .markerIsValue

def closeApplicator (pass : Pass V A) : Action σ (Pass V A) :=
  match takeOperands [] pass.stack with
  | none => Action.structureFault .applicatorNotOpened
  | some ([], _) => Action.structureFault .applicatorWithoutAccessor
  | some (first :: operands, stack) => do
    let address ← Pass.accessor backend first
    operands.forM (Pass.applyOperand backend program address)
    let value ← backend.resolve address
    lookup.deliver backend program { pass with stack } (.resolved value)

def closeConditional (pass : Pass V A) : Action σ (Pass V A) :=
  match dropOperands pass.stack with
  | none => Action.structureFault .conditionalNotOpened
  | some (none, _) => Action.structureFault .conditionalWithoutAccessor
  | some (some address, stack) => do
    match ← backend.exitLoop address with
    | .again =>
      match pass.loops with
      | [] => Action.structureFault .loopStartMissing
      | start :: _ => return { pass with rest := start, stack := .conditional none :: stack }
    | .done => lookup.leaveConditional backend { pass with stack }

def step (pass : Pass V A) : Token → Action σ (Pass V A)
  | .opening .applicator => return pass.push .applicator
  | .opening .conditional => do
    backend.enterLoop
    return { pass.push (.conditional none) with loops := pass.rest :: pass.loops }
  | .closing .applicator => lookup.closeApplicator backend program pass
  | .closing .conditional => lookup.closeConditional backend pass
  | .opening .definition | .closing .definition => Action.structureFault .definitionInBody
  | token => lookup.deliver backend program pass (.pending token)

def run (fuel : Nat) (pass : Pass V A) : Action σ Unit :=
  match pass.rest with
  | [] => Pass.finish backend pass
  | token :: rest =>
    match fuel with
    | 0 => Action.exhausted
    | fuel + 1 => do
      let pass ← lookup.step backend program { pass with rest } token
      run fuel pass

/-- Evaluates a body, with the lookup wherever a pass asks for its innermost open bracket. -/
def evaluate (fuel : Nat) (body : List Token) : Action σ Unit :=
  lookup.run backend program fuel { rest := body }

end Steps

/-! ## Lookups that agree -/

/-- On this stack, and on those that are left of it once brackets close, the lookup finds what a pass finds. -/
def Agrees (lookup : Lookup V A) (stack : List (Entry V A)) : Prop := ∀ below, below <:+ stack → lookup below = topmost below

theorem agrees_topmost (stack : List (Entry V A)) : Agrees topmost stack := fun _ _ => rfl

/-- A search finds the bracket wherever all that waits is held. -/
theorem agrees_search {stack : List (Entry V A)} (h : Held stack) : Agrees search stack := by
  rintro below ⟨above, rfl⟩
  exact (Pass.innermost?_of_held (held_of_append h : Held (Pass.mk [] below []).stack)).symm

theorem Agrees.here {lookup : Lookup V A} {pass : Pass V A} (h : lookup.Agrees pass.stack) :
    lookup pass.stack = pass.innermost? := h _ List.suffix_rfl

theorem Agrees.below {lookup : Lookup V A} {above below : List (Entry V A)} {marker : Entry V A}
    (h : lookup.Agrees (above ++ marker :: below)) : lookup.Agrees below := fun _ hsuffix =>
  h _ ((hsuffix.trans (List.suffix_cons marker below)).trans (List.suffix_append above _))

section
variable {lookup : Lookup V A} {b : Backend σ V A} {program : Program} {pass : Pass V A}

theorem deliverVoid_eq (h : lookup.Agrees pass.stack) : lookup.deliverVoid b pass = Pass.deliverVoid b pass := by
  rw [deliverVoid, h.here]
  rfl

theorem leaveConditional_eq (h : lookup.Agrees pass.stack) :
    lookup.leaveConditional b pass = Pass.leaveConditional b pass := by
  obtain ⟨rest, stack, loops⟩ := pass
  cases loops with
  | nil => rfl
  | cons start loops => exact deliverVoid_eq h

theorem bindAccessor_eq (h : lookup.Agrees pass.stack) (entry : Entry V A) :
    lookup.bindAccessor b pass entry = Pass.bindAccessor b pass entry := by
  obtain ⟨rest, stack, loops⟩ := pass
  unfold bindAccessor Pass.bindAccessor
  refine bind_congr fun address => bind_congr fun answer => ?_
  cases answer with
  | run => rfl
  | skip =>
    rcases stack with _ | ⟨_ | accessor | _ | _ | _, stack⟩
    case cons.conditional =>
      have hbelow : lookup.Agrees stack := (show lookup.Agrees ([] ++ .conditional accessor :: stack) from h).below
      cases hskip : skipBody 0 rest with
      | none => rfl
      | some behind => exact leaveConditional_eq hbelow
    all_goals rfl

theorem deliver_eq (h : lookup.Agrees pass.stack) (entry : Entry V A) :
    lookup.deliver b program pass entry = Pass.deliver b program pass entry := by
  have hbind : lookup.bindAccessor b pass = Pass.bindAccessor b pass := funext (bindAccessor_eq h)
  unfold deliver
  rw [h.here, hbind]
  rfl

theorem closeApplicator_eq (h : lookup.Agrees pass.stack) :
    lookup.closeApplicator b program pass = Pass.closeApplicator b program pass := by
  unfold closeApplicator Pass.closeApplicator
  rcases htaken : takeOperands [] pass.stack with _ | ⟨_ | ⟨first, operands⟩, below⟩
  · rfl
  · rfl
  · obtain ⟨entries, hstack, -⟩ := eq_append_of_takeOperands htaken
    rw [hstack] at h
    exact bind_congr fun address => bind_congr fun _ => bind_congr fun value => deliver_eq h.below _

theorem closeConditional_eq (h : lookup.Agrees pass.stack) :
    lookup.closeConditional b pass = Pass.closeConditional b pass := by
  unfold closeConditional Pass.closeConditional
  rcases hdropped : dropOperands pass.stack with _ | ⟨_ | address, below⟩
  · rfl
  · rfl
  · obtain ⟨entries, hstack, -⟩ := eq_append_of_dropOperands hdropped
    rw [hstack] at h
    refine bind_congr fun answer => ?_
    cases answer with
    | again => rfl
    | done => exact leaveConditional_eq h.below

/-- Where the lookup agrees, a token does the same. -/
theorem step_eq (h : lookup.Agrees pass.stack) (token : Token) :
    lookup.step b program pass token = Pass.step b program pass token := by
  cases token with
  | opening bracket => cases bracket <;> rfl
  | closing bracket =>
    cases bracket with
    | applicator => exact closeApplicator_eq h
    | conditional => exact closeConditional_eq h
    | definition => rfl
  | _ => exact deliver_eq h _

/-- A lookup that agrees wherever all that waits is held agrees at every token of a body, since a token keeps it so. -/
theorem run_eq (hlookup : ∀ stack, Held stack → lookup.Agrees stack) {body : List Token} (fuel : Nat)
    (hpass : pass.Tidy body) : lookup.run b program fuel pass = Pass.run b program fuel pass := by
  induction fuel generalizing pass with
  | zero =>
    unfold run Pass.run
    rfl
  | succ fuel ih =>
    obtain ⟨rest, stack, loops⟩ := pass
    cases rest with
    | nil => rfl
    | cons token tokens =>
      funext s
      change (lookup.step b program ⟨tokens, stack, loops⟩ token >>= lookup.run b program fuel) s =
        (Pass.step b program ⟨tokens, stack, loops⟩ token >>= Pass.run b program fuel) s
      rw [step_eq (hlookup stack hpass.held)]
      cases hstep : Pass.step b program ⟨tokens, stack, loops⟩ token s with
      | ok next s' =>
        rw [Action.bind_of_ok hstep, Action.bind_of_ok hstep, ih (Pass.tidy_of_step hpass rfl hstep).1]
      | error stop s' => rw [Action.bind_of_error hstep, Action.bind_of_error hstep]

end

/-- With the lookup of a pass, the evaluation is that of the body. -/
theorem evaluate_topmost (b : Backend σ V A) (program : Program) (fuel : Nat) (body : List Token) :
    topmost.evaluate b program fuel body = Bracketry.evaluate b program fuel body :=
  run_eq (fun stack _ => agrees_topmost stack) fuel (Pass.tidy_first body)

/-- Evaluating a body with a search through the stack for each innermost open bracket is evaluating the body, with any backend and
however the evaluation ends. -/
theorem evaluate_search (b : Backend σ V A) (program : Program) (fuel : Nat) (body : List Token) :
    search.evaluate b program fuel body = Bracketry.evaluate b program fuel body :=
  run_eq (fun _ => agrees_search) fuel (Pass.tidy_first body)

/-- The two lookups part on a stack to which no evaluation comes. -/
example : topmost ([.void, .conditional none] : List (Entry Nat Nat)) = some .applicator ∧
    search ([.void, .conditional none] : List (Entry Nat Nat)) = some (.conditional none) := ⟨rfl, rfl⟩

end Lookup

end Bracketry
