import Bracketry.Proofs.Recursion

/-!
# The pass, bracket by bracket

What a pass does with the tokens of a forest, as equations about `Pass.run`.

* `Place.IsOn` : the place that a stack says the next item stands in;
* `Place.Holds` : what a bracket may have kept of its items; `Item.onto` : the stack with them;
* `deliver_eq`, `deliverVoid_eq` : an item is handed to the bracket around it;
* `closeApplicator_eq`, `closeConditional_eq` : a bracket closes;
* `run_token`, `run_accessor`, `run_opening_applicator`, `run_closing_applicator`, `run_opening_conditional`,
  `run_closing_conditional` : one token;
* `bindAccessor_run` : an accessor in front of the rest of its conditional.
-/

namespace Bracketry

/-! ## Places and stacks -/

namespace Place
variable {σ V A : Type}

def marker? : Place A → Option (Entry V A)
  | top => none
  | applicator => some .applicator
  | loop address => some (.conditional (some address))

/-- The next item stands in this place. -/
def IsOn (place : Place A) (stack : List (Entry V A)) : Prop :=
  (⟨[], stack, []⟩ : Pass V A).innermost? = place.marker?

/-- What a bracket in this place may have kept: an applicator anything, the others nothing. -/
def Holds : Place A → List (Item V) → Prop
  | applicator, _ => True
  | _, kept => kept = []

theorem isOn_top : (top : Place A).IsOn ([] : List (Entry V A)) := rfl

theorem isOn_applicator (stack : List (Entry V A)) : (applicator : Place A).IsOn (.applicator :: stack) := rfl

theorem isOn_loop (address : A) (stack : List (Entry V A)) :
    (loop address).IsOn (.conditional (some address) :: stack) := rfl

theorem holds_nil (place : Place A) : place.Holds ([] : List (Item V)) := by
  cases place with
  | applicator => trivial
  | top => rfl
  | loop address => rfl

theorem holds_keep_append {place : Place A} {kept : List (Item V)} (h : place.Holds kept) (item : Item V) :
    place.Holds (place.keep item ++ kept) := by
  cases place with
  | applicator => trivial
  | top => exact h
  | loop address => exact h

end Place

/-! ## Items on a stack -/

namespace Item
variable {V A : Type}

/-- The stack of a pass behind some items that are kept. -/
def onto (stack : List (Entry V A)) (kept : List (Item V)) : List (Entry V A) :=
  kept.foldl (fun stack item => item.entry :: stack) stack

theorem onto_append (stack : List (Entry V A)) (kept more : List (Item V)) :
    onto stack (kept ++ more) = onto (onto stack kept) more := List.foldl_append

theorem isOn_onto {place : Place A} {stack : List (Entry V A)} (hstack : place.IsOn stack) {kept : List (Item V)}
    (h : place.Holds kept) : place.IsOn (onto stack kept) := by
  cases place with
  | applicator =>
    induction kept generalizing stack with
    | nil => exact hstack
    | cons item kept ih =>
      have htop : (Place.applicator : Place A).IsOn (item.entry :: stack) := by cases item <;> rfl
      exact ih htop h
  | top => exact (show kept = [] from h) ▸ hstack
  | loop address => exact (show kept = [] from h) ▸ hstack

theorem isOn_keep {place : Place A} {stack : List (Entry V A)} (hstack : place.IsOn stack) (item : Item V) :
    place.IsOn (onto stack (place.keep item)) := by
  have h := place.holds_keep_append (place.holds_nil (V := V)) item
  rw [List.append_nil] at h
  exact isOn_onto hstack h

theorem takeOperands_onto (operands stack : List (Entry V A)) (kept : List (Item V)) :
    takeOperands operands (onto stack kept) = takeOperands (kept.map entry ++ operands) stack := by
  induction kept generalizing stack with
  | nil => rfl
  | cons item kept ih =>
    refine (ih (item.entry :: stack)).trans ?_
    cases item <;> rfl

theorem dropOperands_onto (stack : List (Entry V A)) (kept : List (Item V)) :
    dropOperands (onto stack kept) = dropOperands stack := by
  induction kept generalizing stack with
  | nil => rfl
  | cons item kept ih =>
    refine (ih (item.entry :: stack)).trans ?_
    cases item <;> rfl

end Item

theorem skipBody_tokens (forest : Forest) (depth : Nat) (tokens : List Token) :
    skipBody depth (forest.tokens ++ tokens) = skipBody depth tokens := by
  induction forest generalizing depth tokens with
  | nil => rfl
  | token t plain rest ih =>
    rw [← ih depth tokens]
    cases t with
    | opening kind => cases plain
    | closing kind => cases plain
    | _ => cases depth <;> rfl
  | applicator inner rest ihInner ihRest =>
    rw [← ihRest depth tokens, Forest.tokens, List.cons_append, List.append_assoc, List.cons_append]
    calc skipBody depth (.opening .applicator :: (inner.tokens ++ .closing .applicator :: (rest.tokens ++ tokens)))
        = skipBody depth (inner.tokens ++ .closing .applicator :: (rest.tokens ++ tokens)) := by cases depth <;> rfl
      _ = skipBody depth (.closing .applicator :: (rest.tokens ++ tokens)) := ihInner depth _
      _ = skipBody depth (rest.tokens ++ tokens) := by cases depth <;> rfl
  | conditional inner rest ihInner ihRest =>
    rw [← ihRest depth tokens, Forest.tokens, List.cons_append, List.append_assoc, List.cons_append]
    calc skipBody depth (.opening .conditional :: (inner.tokens ++ .closing .conditional :: (rest.tokens ++ tokens)))
        = skipBody (depth + 1) (inner.tokens ++ .closing .conditional :: (rest.tokens ++ tokens)) := by
          cases depth <;> rfl
      _ = skipBody (depth + 1) (.closing .conditional :: (rest.tokens ++ tokens)) := ihInner (depth + 1) _
      _ = skipBody depth (rest.tokens ++ tokens) := rfl

/-! ## One token -/

namespace Pass
variable {σ V A : Type} (b : Backend σ V A) (program : Program) {tokens : List Token} {stack : List (Entry V A)}
  {loops : List (List Token)} {place : Place A}

theorem deliver_eq (hplace : place.IsOn stack) (item : Item V) :
    deliver b program ⟨tokens, stack, loops⟩ item.entry =
      place.act b program item >>= fun _ => pure ⟨tokens, Item.onto stack (place.keep item), loops⟩ := by
  have hinnermost : (⟨tokens, stack, loops⟩ : Pass V A).innermost? = place.marker? := hplace
  unfold deliver
  rw [hinnermost]
  cases place with
  | applicator => cases item <;> rfl
  | top => cases item <;> rfl
  | loop address =>
    cases item with
    | token t => exact congrArg (· >>= fun _ => pure _) (Item.applyToken_eq address t)
    | _ => rfl

theorem deliverVoid_eq (hplace : place.IsOn stack) :
    deliverVoid b ⟨tokens, stack, loops⟩ = pure ⟨tokens, Item.onto stack (place.keep .void), loops⟩ := by
  have hinnermost : (⟨tokens, stack, loops⟩ : Pass V A).innermost? = place.marker? := hplace
  unfold deliverVoid
  rw [hinnermost]
  cases place <;> rfl

theorem run_token (hplace : place.IsOn stack) {t : Token} (plain : t.isPlain = true) (fuel : Nat) :
    run b program (fuel + 1) ⟨t :: tokens, stack, loops⟩ =
      place.act b program (.token t) >>= fun _ =>
        run b program fuel ⟨tokens, Item.onto stack (place.keep (.token t)), loops⟩ := by
  change step b program ⟨tokens, stack, loops⟩ t >>= run b program fuel = _
  rw [step_token b program _ plain, show Entry.pending t = (Item.token t).entry from rfl, deliver_eq b program hplace, bind_assoc]
  simp only [pure_bind]

theorem run_accessor {t : Token} (plain : t.isPlain = true) (fuel : Nat) :
    run b program (fuel + 1) ⟨t :: tokens, .conditional none :: stack, loops⟩ =
      bindAccessor b ⟨tokens, .conditional none :: stack, loops⟩ (Item.token t).entry >>= run b program fuel := by
  cases t with
  | opening kind => cases plain
  | closing kind => cases plain
  | _ => rfl

theorem run_opening_applicator (fuel : Nat) :
    run b program (fuel + 1) ⟨.opening .applicator :: tokens, stack, loops⟩ =
      run b program fuel ⟨tokens, .applicator :: stack, loops⟩ := rfl

theorem closeApplicator_eq (kept : List (Item V)) :
    closeApplicator b program ⟨tokens, Item.onto (.applicator :: stack) kept, loops⟩ =
      Item.applied b program kept >>= fun v => deliver b program ⟨tokens, stack, loops⟩ (Item.value v).entry := by
  rw [closeApplicator_eq_applied, Item.takeOperands_onto, List.append_nil, ← Item.applied_entry (A := A)]
  rfl

theorem run_closing_applicator (kept : List (Item V)) (fuel : Nat) :
    run b program (fuel + 1) ⟨.closing .applicator :: tokens, Item.onto (.applicator :: stack) kept, loops⟩ =
      Item.applied b program kept >>= fun v =>
        deliver b program ⟨tokens, stack, loops⟩ (Item.value v).entry >>= run b program fuel := by
  change closeApplicator b program ⟨tokens, Item.onto (.applicator :: stack) kept, loops⟩ >>= run b program fuel = _
  rw [closeApplicator_eq b program, bind_assoc]

theorem run_opening_conditional (fuel : Nat) :
    run b program (fuel + 1) ⟨.opening .conditional :: tokens, stack, loops⟩ =
      b.enterLoop >>= fun _ => run b program fuel ⟨tokens, .conditional none :: stack, tokens :: loops⟩ := by
  change (b.enterLoop >>= fun _ => pure _) >>= run b program fuel = _
  rw [bind_assoc]
  simp only [pure_bind]
  rfl

theorem closeConditional_eq (kept : List (Item V)) (address : A) (start : List Token) :
    closeConditional b ⟨tokens, Item.onto (.conditional (some address) :: stack) kept, start :: loops⟩ =
      b.exitLoop address >>= fun answer => match answer with
        | .again => pure ⟨start, .conditional none :: stack, start :: loops⟩
        | .done => deliverVoid b ⟨tokens, stack, loops⟩ := by
  unfold closeConditional
  rw [Item.dropOperands_onto, dropOperands]
  dsimp only
  refine congrArg _ (funext fun answer => ?_)
  cases answer <;> rfl

theorem run_closing_conditional (kept : List (Item V)) (address : A) (start : List Token) (fuel : Nat) :
    run b program (fuel + 1)
        ⟨.closing .conditional :: tokens, Item.onto (.conditional (some address) :: stack) kept, start :: loops⟩ =
      b.exitLoop address >>= fun answer => match answer with
        | .again => run b program fuel ⟨start, .conditional none :: stack, start :: loops⟩
        | .done => deliverVoid b ⟨tokens, stack, loops⟩ >>= run b program fuel := by
  change closeConditional b ⟨tokens, Item.onto (.conditional (some address) :: stack) kept, start :: loops⟩ >>=
    run b program fuel = _
  rw [closeConditional_eq b, bind_assoc]
  refine congrArg _ (funext fun answer => ?_)
  cases answer <;> rfl

/-- An accessor binds the conditional that stands in front of its rest, or takes the pass behind it. -/
theorem bindAccessor_run (rest : Forest) (item : Item V) (start : List Token) (fuel : Nat) :
    bindAccessor b
        ⟨rest.tokens ++ .closing .conditional :: tokens, .conditional none :: stack, start :: loops⟩
        item.entry >>= run b program fuel =
      item.address b >>= fun address => b.testLoop address >>= fun answer => match answer with
        | .run => run b program fuel
            ⟨rest.tokens ++ .closing .conditional :: tokens, .conditional (some address) :: stack, start :: loops⟩
        | .skip => deliverVoid b ⟨tokens, stack, loops⟩ >>= run b program fuel := by
  have hskip : skipBody 0 (rest.tokens ++ .closing .conditional :: tokens) = some tokens := by
    rw [skipBody_tokens]
    rfl
  unfold bindAccessor
  rw [Item.accessor_entry]
  simp only [bind_assoc]
  refine congrArg _ (funext fun address => congrArg _ (funext fun answer => ?_))
  cases answer with
  | run => rfl
  | skip =>
    simp only [hskip]
    rfl

end Pass

end Bracketry
