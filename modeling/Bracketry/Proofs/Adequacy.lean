import Bracketry.Eval.Trace
import Bracketry.Proofs.Cursor
import Bracketry.Proofs.Lockstep

/-!
# The pass evaluates by recursion

A pass over the tokens of a forest ends as the evaluation of the forest does, and one ends as soon as the other does.

* `Forest.ItemsBelow`, `Forest.TurnBelow` : with little fuel a pass does what the recursion does, or nothing;
  `evaluate_below` is the statement for a whole body;
* `Settles` : what a family of actions does from some point on;
* `Forest.ItemsSettle`, `Forest.TurnSettles` : with enough fuel a pass does what the recursion does; `evaluate_settles` is
  the statement for a whole body;
* `evaluate_unique`, `evaluate_eq_iff_forest` : there is one end, and both have it.

Calls are the reason for a second backend on the side of the recursion, and for a family of them on the side of the pass:
a call is an evaluation as well, with fuel of its own.
-/

namespace Bracketry

variable {σ τ V A : Type}

/-! ## Operations with related backends -/

section Alike
variable {rel : Relator σ τ} {b : Backend σ V A} {c : Backend τ V A} (program : Program) (halike : b.Alike rel c)
  (hfaults : rel.KeepsFaults)
include halike hfaults

theorem Item.address_alike (item : Item V) : rel.Rel Eq (item.address b) (item.address c) := by
  cases item with
  | token t =>
    cases t with
    | literal number => exact rel.bind_eq (halike.literal number) halike.resolveAccessor
    | parameter => exact rel.bind_eq halike.parameter halike.resolveAccessor
    | _ => exact hfaults (.invalidAccessor _) _
  | value v => exact halike.resolveAccessor v
  | void => exact hfaults (.invalidAccessor _) _

theorem Item.applied_alike (items : List (Item V)) : rel.Rel Eq (applied b program items) (applied c program items) := by
  rw [← applied_entry (A := A), ← applied_entry (A := A)]
  exact Pass.applied_matches (halike.matches hfaults program) hfaults (entries_matches_refl _)

theorem Place.act_alike (place : Place A) (item : Item V) :
    rel.Rel Eq (place.act b program item) (place.act c program item) := by
  cases place with
  | top =>
    cases item with
    | token t => exact hfaults (.structural _) _
    | _ => exact rel.pure rfl
  | applicator => exact rel.pure rfl
  | loop address =>
    cases item with
    | token t =>
      rw [act, act, ← Item.applyToken_eq, ← Item.applyToken_eq]
      exact Pass.applyToken_matches (halike.matches hfaults program) hfaults rfl t
    | _ => exact rel.pure rfl

end Alike

namespace Forest

/-! ## With little fuel -/

section Below
variable {b c : Backend σ V A} (program : Program) (fuel : Nat)

variable (b c) in
/-- A pass that has no more fuel than the recursion does with the tokens what the recursion does with the items. -/
def ItemsBelow (forest : Forest) : Prop :=
  ∀ (place : Place A) (stack : List (Entry V A)) (tokens : List Token) (loops : List (List Token))
    (next : List (Item V) → Action σ Unit) (k : Nat), k ≤ fuel → place.IsOn stack →
    (∀ j ≤ k, ∀ kept, place.Holds kept →
      Below (Pass.run b program j ⟨tokens, Item.onto stack kept, loops⟩) (next kept)) →
    Below (Pass.run b program k ⟨forest.tokens ++ tokens, stack, loops⟩) (forest.items c program fuel place >>= next)

variable (b c) in
/-- A pass at the accessor of a conditional does with the tokens what a turn does with the items. A further turn has less
fuel. -/
def TurnBelow (forest : Forest) : Prop :=
  ∀ (stack : List (Entry V A)) (tokens start : List Token) (loops : List (List Token)) (next : Bool → Action σ Unit)
    (k : Nat), k ≤ fuel →
    (∀ j < k, Below (Pass.run b program j ⟨start, .conditional none :: stack, start :: loops⟩) (next true)) →
    (∀ j ≤ k, Below (Pass.deliverVoid b ⟨tokens, stack, loops⟩ >>= Pass.run b program j) (next false)) →
    Below
      (Pass.run b program k
        ⟨forest.tokens ++ .closing .conditional :: tokens, .conditional none :: stack, start :: loops⟩)
      (forest.turn c program fuel >>= next)

variable (halike : b.Alike (.below σ) c)
include halike

omit halike in
theorem itemsBelow_nil : ItemsBelow b c program fuel nil := by
  intro place stack tokens loops next k _ _ hnext
  exact hnext k (Nat.le_refl k) [] (Place.holds_nil place)

theorem act_below {rest : Forest} (ih : ItemsBelow b c program fuel rest) (place : Place A) (item : Item V)
    (stack : List (Entry V A)) (tokens : List Token) (loops : List (List Token))
    (next : List (Item V) → Action σ Unit) (k : Nat) (hk : k ≤ fuel) (hplace : place.IsOn stack)
    (hnext : ∀ j ≤ k, ∀ kept, place.Holds kept →
      Below (Pass.run b program j ⟨tokens, Item.onto stack kept, loops⟩) (next kept)) :
    Below
      (place.act b program item >>= fun _ =>
        Pass.run b program k ⟨rest.tokens ++ tokens, Item.onto stack (place.keep item), loops⟩)
      (place.act c program item >>= fun _ =>
        rest.items c program fuel place >>= fun kept => next (place.keep item ++ kept)) := by
  have hact := Relator.below_eq_iff.1 (Place.act_alike program halike Relator.below_keepsFaults place item)
  refine Below.bind hact fun _ => ?_
  refine ih place _ tokens loops _ k hk (Item.isOn_keep hplace item) fun j hj kept hkept => ?_
  have h := hnext j hj (place.keep item ++ kept) (Place.holds_keep_append hkept item)
  rwa [Item.onto_append] at h

theorem itemsBelow_token {t : Token} (plain : t.isPlain = true) {rest : Forest}
    (ih : ItemsBelow b c program fuel rest) : ItemsBelow b c program fuel (token t plain rest) := by
  intro place stack tokens loops next k hk hplace hnext
  cases k with
  | zero => exact Below.exhausted _
  | succ k =>
    rw [Forest.tokens, List.cons_append, Pass.run_token b program hplace plain, items]
    simp only [bind_assoc, pure_bind]
    exact act_below program fuel halike ih place (.token t) stack tokens loops next k (by omega) hplace
      fun j hj => hnext j (by omega)

/-- An applicator, up to the delivery of its value. -/
theorem applicator_below {inner : Forest} (ih : ItemsBelow b c program fuel inner) (stack : List (Entry V A))
    (tokens : List Token) (loops : List (List Token)) (next : V → Action σ Unit) (k : Nat) (hk : k ≤ fuel)
    (hnext : ∀ j ≤ k, ∀ value,
      Below (Pass.deliver b program ⟨tokens, stack, loops⟩ (Item.value value).entry >>= Pass.run b program j) (next value)) :
    Below
      (Pass.run b program k ⟨.opening .applicator :: (inner.tokens ++ .closing .applicator :: tokens), stack, loops⟩)
      (inner.items c program fuel .applicator >>= fun kept => Item.applied c program kept >>= next) := by
  cases k with
  | zero => exact Below.exhausted _
  | succ k =>
    rw [Pass.run_opening_applicator]
    refine ih .applicator _ _ loops _ k (by omega) (Place.isOn_applicator stack) fun j hj kept hkept => ?_
    cases j with
    | zero => exact Below.exhausted _
    | succ j =>
      rw [Pass.run_closing_applicator b program]
      have happlied := Relator.below_eq_iff.1 (Item.applied_alike program halike Relator.below_keepsFaults kept)
      exact Below.bind happlied fun value => hnext j (by omega) value

/-- A conditional, up to the delivery of its result. Every turn takes a token, so the recursion has fuel for all of them. -/
theorem conditional_below {inner : Forest} (ih : TurnBelow b c program fuel inner) (stack : List (Entry V A))
    (tokens : List Token) (loops : List (List Token)) (next : Action σ Unit) (k : Nat) (hk : k ≤ fuel)
    (hnext : ∀ j ≤ k, Below (Pass.deliverVoid b ⟨tokens, stack, loops⟩ >>= Pass.run b program j) next) :
    Below
      (Pass.run b program k ⟨.opening .conditional :: (inner.tokens ++ .closing .conditional :: tokens), stack, loops⟩)
      (c.enterLoop >>= fun _ => Action.repeating (inner.turn c program fuel) fuel >>= fun _ => next) := by
  -- The accessor alone takes a unit of fuel, so a pass with fuel for `j` tokens does not reach turn `j + 1`.
  have hturns : ∀ turns j, j ≤ turns → j ≤ k → Below
      (Pass.run b program j ⟨inner.tokens ++ .closing .conditional :: tokens, .conditional none :: stack,
        (inner.tokens ++ .closing .conditional :: tokens) :: loops⟩)
      (Action.repeating (inner.turn c program fuel) turns >>= fun _ => next) := by
    intro turns
    induction turns with
    | zero =>
      intro j hj _
      obtain rfl : j = 0 := by omega
      cases inner.tokens <;> exact Below.exhausted _
    | succ turns ihTurns =>
      intro j hj hjk
      rw [Action.repeating, bind_assoc]
      refine ih stack tokens _ loops _ j (by omega) (fun i hi => ?_) fun i hi => ?_
      · exact ihTurns i (by omega) (by omega)
      · rw [if_neg Bool.false_ne_true, pure_bind]
        exact hnext i (by omega)
  cases k with
  | zero => exact Below.exhausted _
  | succ k =>
    rw [Pass.run_opening_conditional]
    exact Below.bind (Relator.below_eq_iff.1 halike.enterLoop) fun _ => hturns fuel k (by omega) (by omega)

theorem bound_below {rest : Forest} (ih : ItemsBelow b c program fuel rest) (item : Item V)
    (stack : List (Entry V A)) (tokens start : List Token) (loops : List (List Token)) (next : Bool → Action σ Unit)
    (k : Nat) (hk : k ≤ fuel)
    (hagain : ∀ j < k, Below (Pass.run b program j ⟨start, .conditional none :: stack, start :: loops⟩) (next true))
    (hdone : ∀ j ≤ k, Below (Pass.deliverVoid b ⟨tokens, stack, loops⟩ >>= Pass.run b program j) (next false)) :
    Below
      (Pass.bindAccessor b ⟨rest.tokens ++ .closing .conditional :: tokens, .conditional none :: stack, start :: loops⟩
        item.entry >>= Pass.run b program k)
      (item.bound c (rest.items c program fuel) >>= next) := by
  rw [Pass.bindAccessor_run, Item.bound]
  simp only [Backend.turn, bind_assoc]
  have haddress := Relator.below_eq_iff.1 (Item.address_alike halike Relator.below_keepsFaults item)
  refine Below.bind haddress fun address => Below.bind (Relator.below_eq_iff.1 (halike.testLoop address)) fun answer => ?_
  cases answer with
  | skip => simpa using hdone k (Nat.le_refl k)
  | run =>
    simp only [bind_assoc]
    refine ih (.loop address) _ _ _ _ k hk (Place.isOn_loop address stack) fun j hj kept hkept => ?_
    cases j with
    | zero =>
      obtain rfl : kept = [] := hkept
      exact Below.exhausted _
    | succ j =>
      rw [Pass.run_closing_conditional b program]
      refine Below.bind (Relator.below_eq_iff.1 (halike.exitLoop address)) fun answer => ?_
      cases answer with
      | again => simpa using hagain j (by omega)
      | done => simpa using hdone j (by omega)

/-- Up to the fuel of the recursion, a pass over a forest does what the recursion does. -/
theorem itemsBelow_and_turnBelow (forest : Forest) :
    ItemsBelow b c program fuel forest ∧ TurnBelow b c program fuel forest := by
  induction forest with
  | nil =>
    refine ⟨itemsBelow_nil program fuel, fun stack tokens start loops next k _ _ _ => ?_⟩
    cases k with
    | zero => exact Below.exhausted _
    | succ k => exact Below.refl _
  | token t plain rest ih =>
    refine ⟨itemsBelow_token program fuel halike plain ih.1, fun stack tokens start loops next k hk hagain hdone => ?_⟩
    cases k with
    | zero => exact Below.exhausted _
    | succ k =>
      rw [Forest.tokens, List.cons_append, Pass.run_accessor b program plain, turn]
      exact bound_below program fuel halike ih.1 _ stack tokens start loops next k (by omega)
        (fun j hj => hagain j (by omega)) fun j hj => hdone j (by omega)
  | applicator inner rest ihInner ihRest =>
    refine ⟨fun place stack tokens loops next k hk hplace hnext => ?_,
      fun stack tokens start loops next k hk hagain hdone => ?_⟩
    · rw [Forest.tokens, List.cons_append, List.append_assoc, List.cons_append, items]
      simp only [bind_assoc, pure_bind]
      refine applicator_below program fuel halike ihInner.1 stack _ loops _ k hk fun j hj value => ?_
      rw [Pass.deliver_eq b program hplace, bind_assoc]
      simp only [pure_bind]
      exact act_below program fuel halike ihRest.1 place (.value value) stack tokens loops next j (by omega) hplace
        fun i hi => hnext i (by omega)
    · rw [Forest.tokens, List.cons_append, List.append_assoc, List.cons_append, turn]
      simp only [bind_assoc]
      refine applicator_below program fuel halike ihInner.1 _ _ _ _ k hk fun j hj value => ?_
      exact bound_below program fuel halike ihRest.1 _ stack tokens start loops next j (by omega)
        (fun i hi => hagain i (by omega)) fun i hi => hdone i (by omega)
  | conditional inner rest ihInner ihRest =>
    refine ⟨fun place stack tokens loops next k hk hplace hnext => ?_,
      fun stack tokens start loops next k hk hagain hdone => ?_⟩
    · rw [Forest.tokens, List.cons_append, List.append_assoc, List.cons_append, items]
      simp only [bind_assoc, pure_bind]
      refine conditional_below program fuel halike ihInner.2 stack _ loops _ k hk fun j hj => ?_
      rw [Pass.deliverVoid_eq b hplace, pure_bind]
      refine ihRest.1 place _ tokens loops _ j (by omega) (Item.isOn_keep hplace .void) fun i hi kept hkept => ?_
      have h := hnext i (by omega) (place.keep .void ++ kept) (Place.holds_keep_append hkept .void)
      rwa [Item.onto_append] at h
    · rw [Forest.tokens, List.cons_append, List.append_assoc, List.cons_append, turn]
      simp only [bind_assoc]
      refine conditional_below program fuel halike ihInner.2 _ _ _ _ k hk fun j hj => ?_
      exact bound_below program fuel halike ihRest.1 .void stack tokens start loops next j (by omega)
        (fun i hi => hagain i (by omega)) fun i hi => hdone i (by omega)

end Below

/-- A body that closes, read with little fuel. -/
theorem evaluate_below {b c : Backend σ V A} (program : Program) (halike : b.Alike (.below σ) c) {tokens : List Token}
    (hcloses : Closes [] tokens) {k fuel : Nat} (hk : k ≤ fuel) :
    Below (Bracketry.evaluate b program k tokens) ((ofTokens tokens).evaluate c program fuel) := by
  have hitems := (itemsBelow_and_turnBelow program fuel halike (ofTokens tokens)).1
  have h := hitems .top [] [] [] (fun _ => pure ()) k hk Place.isOn_top fun j _ kept hkept => by
    obtain rfl : kept = [] := hkept
    cases j <;> exact Below.refl _
  rwa [List.append_nil, tokens_ofTokens hcloses] at h

end Forest

/-! ## With enough fuel -/

/-- From some fuel on, a family of actions does what the action does, if that one's fuel is enough. The family depends on
the fuel for calls and on the fuel of the pass. -/
def Settles {α : Type} (xs : Nat → Nat → Action σ α) (y : Action σ α) : Prop :=
  ∀ s, Exhausted (y s) ∨ ∃ least, ∀ calls ≥ least, ∀ fuel ≥ least, xs calls fuel s = y s

namespace Settles
variable {α β : Type}

theorem refl (x : Action σ α) : Settles (fun _ _ => x) x := fun _ => .inr ⟨0, fun _ _ _ _ => rfl⟩

theorem exhausted (xs : Nat → Nat → Action σ α) : Settles xs Action.exhausted := fun _ => .inl trivial

theorem bind {xs : Nat → Nat → Action σ α} {x : Action σ α} {fs : Nat → Nat → α → Action σ β} {f : α → Action σ β}
    (hx : Settles xs x) (hf : ∀ a, Settles (fun calls fuel => fs calls fuel a) (f a)) :
    Settles (fun calls fuel => xs calls fuel >>= fs calls fuel) (x >>= f) := by
  intro s
  cases hresult : x s with
  | error stop s' =>
    rw [Action.bind_of_error hresult]
    rcases hx s with h | ⟨least, h⟩
    · rw [hresult] at h
      cases stop with
      | fault error => exact h.elim
      | outOfFuel => exact .inl trivial
    · exact .inr ⟨least, fun calls hcalls fuel hfuel =>
        Action.bind_of_error ((h calls hcalls fuel hfuel).trans hresult)⟩
  | ok a s' =>
    rw [Action.bind_of_ok hresult]
    rcases hx s with h | ⟨first, hfirst⟩
    · rw [hresult] at h
      exact h.elim
    · rcases hf a s' with h | ⟨second, hsecond⟩
      · exact .inl h
      · refine .inr ⟨max first second, fun calls hcalls fuel hfuel => ?_⟩
        change (xs calls fuel >>= fs calls fuel) s = f a s'
        rw [Action.bind_of_ok ((hfirst calls (by omega) fuel (by omega)).trans hresult)]
        exact hsecond calls (by omega) fuel (by omega)

theorem later {xs ys : Nat → Nat → Action σ α} {z : Action σ α} (h : Settles ys z)
    (hstep : ∀ calls fuel, xs calls (fuel + 1) = ys calls fuel) : Settles xs z := by
  intro s
  rcases h s with h | ⟨least, h⟩
  · exact .inl h
  · refine .inr ⟨least + 1, fun calls hcalls fuel hfuel => ?_⟩
    obtain ⟨fuel, rfl⟩ : ∃ k, fuel = k + 1 := ⟨fuel - 1, by omega⟩
    rw [hstep]
    exact h calls (by omega) fuel (by omega)

theorem of_eq {xs ys : Nat → Nat → Action σ α} {z : Action σ α} (h : Settles ys z)
    (heq : ∀ calls fuel, xs calls fuel = ys calls fuel) : Settles xs z := by
  rw [show xs = ys from funext fun calls => funext (heq calls)]
  exact h

end Settles

def Backend.withCall (b : Backend σ V A) (call : String → A → Action σ Unit) : Backend σ V A := { b with call }

section Calls
variable (b : Backend σ V A) (program : Program) {calls : Nat → String → A → Action σ Unit}
  {call : String → A → Action σ Unit} (hcall : ∀ name address, Settles (fun k _ => calls k name address) (call name address))
include hcall

theorem Pass.applyToken_settles (address : A) (token : Token) :
    Settles (fun k _ => applyToken (b.withCall (calls k)) program address token)
      (applyToken (b.withCall call) program address token) := by
  cases token with
  | identifier name =>
    change Settles (fun k _ => if program.isApplication name then calls k name address else _)
      (if program.isApplication name then call name address else _)
    split
    · exact hcall name address
    · exact Settles.refl _
  | _ => exact Settles.refl _

theorem Pass.applyOperands_settles (address : A) (operands : List (Entry V A)) :
    Settles (fun k _ => operands.forM (applyOperand (b.withCall (calls k)) program address))
      (operands.forM (applyOperand (b.withCall call) program address)) := by
  induction operands with
  | nil => exact Settles.refl _
  | cons entry operands ih =>
    refine Settles.bind ?_ fun _ => ih
    cases entry with
    | pending token => exact applyToken_settles b program hcall address token
    | _ => exact Settles.refl _

theorem Pass.applied_settles (operands : List (Entry V A)) :
    Settles (fun k _ => applied (b.withCall (calls k)) program operands) (applied (b.withCall call) program operands) := by
  cases operands with
  | nil => exact Settles.refl _
  | cons first operands =>
    refine Settles.bind (Settles.refl (accessor b first)) fun address => ?_
    exact Settles.bind (applyOperands_settles b program hcall address operands) fun _ => Settles.refl (b.resolve address)

theorem Item.applied_settles (items : List (Item V)) :
    Settles (fun k _ => applied (b.withCall (calls k)) program items) (applied (b.withCall call) program items) := by
  have hentries := Pass.applied_settles b program hcall (items.map Item.entry)
  simpa only [applied_entry] using hentries

theorem Place.act_settles (place : Place A) (item : Item V) :
    Settles (fun k _ => place.act (b.withCall (calls k)) program item) (place.act (b.withCall call) program item) := by
  cases place with
  | loop address =>
    cases item with
    | token t =>
      have htoken := Pass.applyToken_settles b program hcall address t
      simp only [Item.applyToken_eq] at htoken
      exact htoken
    | _ => exact Settles.refl _
  | top => cases item <;> exact Settles.refl _
  | applicator => exact Settles.refl _

end Calls

namespace Forest

section Settles
variable (b : Backend σ V A) (program : Program) (calls : Nat → String → A → Action σ Unit)
  (call : String → A → Action σ Unit) (fuel : Nat)

/-- With enough fuel a pass over the tokens does what the recursion does with the items. -/
def ItemsSettle (forest : Forest) : Prop :=
  ∀ (place : Place A) (stack : List (Entry V A)) (tokens : List Token) (loops : List (List Token))
    (next : List (Item V) → Action σ Unit), place.IsOn stack →
    (∀ kept, place.Holds kept →
      Settles (fun k => (Pass.run (b.withCall (calls k)) program · ⟨tokens, Item.onto stack kept, loops⟩)) (next kept)) →
    Settles (fun k => (Pass.run (b.withCall (calls k)) program · ⟨forest.tokens ++ tokens, stack, loops⟩))
      (forest.items (b.withCall call) program fuel place >>= next)

/-- With enough fuel a pass at the accessor of a conditional does what a turn does. -/
def TurnSettles (forest : Forest) : Prop :=
  ∀ (stack : List (Entry V A)) (tokens start : List Token) (loops : List (List Token)) (next : Bool → Action σ Unit),
    Settles (fun k => (Pass.run (b.withCall (calls k)) program · ⟨start, .conditional none :: stack, start :: loops⟩))
      (next true) →
    Settles (fun k j => Pass.deliverVoid b ⟨tokens, stack, loops⟩ >>= Pass.run (b.withCall (calls k)) program j)
      (next false) →
    Settles
      (fun k => (Pass.run (b.withCall (calls k)) program ·
        ⟨forest.tokens ++ .closing .conditional :: tokens, .conditional none :: stack, start :: loops⟩))
      (forest.turn (b.withCall call) program fuel >>= next)

variable {b program calls call fuel}
  (hcall : ∀ name address, Settles (fun k _ => calls k name address) (call name address))

theorem itemsSettle_nil : ItemsSettle b program calls call fuel nil := by
  intro place stack tokens loops next _ hnext
  exact hnext [] (Place.holds_nil place)

include hcall

theorem act_settles {rest : Forest} (ih : ItemsSettle b program calls call fuel rest) (place : Place A)
    (item : Item V) (stack : List (Entry V A)) (tokens : List Token)
    (loops : List (List Token)) (next : List (Item V) → Action σ Unit) (hplace : place.IsOn stack)
    (hnext : ∀ kept, place.Holds kept →
      Settles (fun k => (Pass.run (b.withCall (calls k)) program · ⟨tokens, Item.onto stack kept, loops⟩))
        (next kept)) :
    Settles
      (fun k j => place.act (b.withCall (calls k)) program item >>= fun _ =>
        Pass.run (b.withCall (calls k)) program j ⟨rest.tokens ++ tokens, Item.onto stack (place.keep item), loops⟩)
      (place.act (b.withCall call) program item >>= fun _ =>
        rest.items (b.withCall call) program fuel place >>= fun kept => next (place.keep item ++ kept)) := by
  refine Settles.bind (Place.act_settles b program hcall place item) fun _ => ?_
  refine ih place _ tokens loops _ (Item.isOn_keep hplace item) fun kept hkept => ?_
  have h := hnext (place.keep item ++ kept) (Place.holds_keep_append hkept item)
  rwa [Item.onto_append] at h

theorem applicator_settles {inner : Forest} (ih : ItemsSettle b program calls call fuel inner)
    (stack : List (Entry V A)) (tokens : List Token) (loops : List (List Token)) (next : V → Action σ Unit)
    (hnext : ∀ value,
      Settles (fun k j => Pass.deliver (b.withCall (calls k)) program ⟨tokens, stack, loops⟩ (Item.value value).entry >>=
        Pass.run (b.withCall (calls k)) program j) (next value)) :
    Settles
      (fun k => (Pass.run (b.withCall (calls k)) program ·
        ⟨.opening .applicator :: (inner.tokens ++ .closing .applicator :: tokens), stack, loops⟩))
      (inner.items (b.withCall call) program fuel .applicator >>= fun kept =>
        Item.applied (b.withCall call) program kept >>= next) := by
  refine Settles.later ?_ fun k j => Pass.run_opening_applicator (b.withCall (calls k)) program j
  refine ih .applicator _ _ loops _ (Place.isOn_applicator stack) fun kept hkept => ?_
  refine Settles.later ?_ fun k j => Pass.run_closing_applicator (b.withCall (calls k)) program kept j
  exact Settles.bind (Item.applied_settles b program hcall kept) hnext

omit hcall in
theorem conditional_settles {inner : Forest} (ih : TurnSettles b program calls call fuel inner)
    (stack : List (Entry V A)) (tokens : List Token) (loops : List (List Token)) (next : Action σ Unit)
    (hnext : Settles
      (fun k j => Pass.deliverVoid b ⟨tokens, stack, loops⟩ >>= Pass.run (b.withCall (calls k)) program j) next) :
    Settles
      (fun k => (Pass.run (b.withCall (calls k)) program ·
        ⟨.opening .conditional :: (inner.tokens ++ .closing .conditional :: tokens), stack, loops⟩))
      (b.enterLoop >>= fun _ =>
        Action.repeating (inner.turn (b.withCall call) program fuel) fuel >>= fun _ => next) := by
  have hturns : ∀ turns, Settles
      (fun k => (Pass.run (b.withCall (calls k)) program ·
        ⟨inner.tokens ++ .closing .conditional :: tokens, .conditional none :: stack,
          (inner.tokens ++ .closing .conditional :: tokens) :: loops⟩))
      (Action.repeating (inner.turn (b.withCall call) program fuel) turns >>= fun _ => next) := by
    intro turns
    induction turns with
    | zero => exact Settles.exhausted _
    | succ turns ihTurns =>
      rw [Action.repeating, bind_assoc]
      refine ih stack tokens _ loops _ ihTurns ?_
      rw [if_neg Bool.false_ne_true, pure_bind]
      exact hnext
  refine Settles.later ?_ fun k j => Pass.run_opening_conditional (b.withCall (calls k)) program j
  exact Settles.bind (Settles.refl b.enterLoop) fun _ => hturns fuel

omit hcall in
theorem bound_settles {rest : Forest} (ih : ItemsSettle b program calls call fuel rest) (item : Item V)
    (stack : List (Entry V A)) (tokens start : List Token) (loops : List (List Token)) (next : Bool → Action σ Unit)
    (hagain : Settles
      (fun k => (Pass.run (b.withCall (calls k)) program · ⟨start, .conditional none :: stack, start :: loops⟩))
      (next true))
    (hdone : Settles
      (fun k j => Pass.deliverVoid b ⟨tokens, stack, loops⟩ >>= Pass.run (b.withCall (calls k)) program j)
      (next false)) :
    Settles
      (fun k j => Pass.bindAccessor (b.withCall (calls k))
        ⟨rest.tokens ++ .closing .conditional :: tokens, .conditional none :: stack, start :: loops⟩ item.entry >>=
          Pass.run (b.withCall (calls k)) program j)
      (item.bound (b.withCall call) (rest.items (b.withCall call) program fuel) >>= next) := by
  refine Settles.of_eq ?_ fun k j => Pass.bindAccessor_run (b.withCall (calls k)) program rest item start j
  rw [Item.bound]
  simp only [Backend.turn, bind_assoc]
  refine Settles.bind (Settles.refl (item.address b)) fun address => ?_
  refine Settles.bind (Settles.refl (b.testLoop address)) fun answer => ?_
  cases answer with
  | skip =>
    rw [pure_bind]
    exact hdone
  | run =>
    simp only [bind_assoc]
    refine ih (.loop address) _ _ _ _ (Place.isOn_loop address stack) fun kept hkept => ?_
    refine Settles.later ?_ fun k j => Pass.run_closing_conditional (b.withCall (calls k)) program kept address
      start j
    refine Settles.bind (Settles.refl (b.exitLoop address)) fun answer => ?_
    cases answer with
    | again =>
      rw [pure_bind]
      exact hagain
    | done =>
      rw [pure_bind]
      exact hdone

/-- With enough fuel, a pass over a forest does what the recursion does. -/
theorem itemsSettle_and_turnSettles (forest : Forest) :
    ItemsSettle b program calls call fuel forest ∧ TurnSettles b program calls call fuel forest := by
  induction forest with
  | nil =>
    refine ⟨itemsSettle_nil, fun stack tokens start loops next _ _ => ?_⟩
    exact Settles.later (Settles.refl _) fun k j => rfl
  | token t plain rest ih =>
    refine ⟨fun place stack tokens loops next hplace hnext => ?_, fun stack tokens start loops next hagain hdone => ?_⟩
    · refine Settles.later ?_ fun k j => Pass.run_token (b.withCall (calls k)) program hplace plain j
      rw [items]
      simp only [bind_assoc, pure_bind]
      exact act_settles hcall ih.1 place (.token t) stack tokens loops next hplace hnext
    · refine Settles.later ?_ fun k j => Pass.run_accessor (b.withCall (calls k)) program plain j
      exact bound_settles ih.1 (.token t) stack tokens start loops next hagain hdone
  | applicator inner rest ihInner ihRest =>
    refine ⟨fun place stack tokens loops next hplace hnext => ?_, fun stack tokens start loops next hagain hdone => ?_⟩
    · rw [Forest.tokens, List.cons_append, List.append_assoc, List.cons_append, items]
      simp only [bind_assoc, pure_bind]
      refine applicator_settles hcall ihInner.1 stack _ loops _ fun value => ?_
      refine Settles.of_eq (act_settles hcall ihRest.1 place (.value value) stack tokens loops next hplace hnext)
        fun k j => ?_
      rw [Pass.deliver_eq (b.withCall (calls k)) program hplace, bind_assoc]
      simp only [pure_bind]
    · rw [Forest.tokens, List.cons_append, List.append_assoc, List.cons_append, turn]
      simp only [bind_assoc]
      refine applicator_settles hcall ihInner.1 _ _ _ _ fun value => ?_
      exact bound_settles ihRest.1 (.value value) stack tokens start loops next hagain hdone
  | conditional inner rest ihInner ihRest =>
    refine ⟨fun place stack tokens loops next hplace hnext => ?_, fun stack tokens start loops next hagain hdone => ?_⟩
    · rw [Forest.tokens, List.cons_append, List.append_assoc, List.cons_append, items]
      simp only [bind_assoc, pure_bind]
      refine conditional_settles ihInner.2 stack _ loops _ ?_
      rw [Pass.deliverVoid_eq b hplace]
      simp only [pure_bind]
      refine ihRest.1 place _ tokens loops _ (Item.isOn_keep hplace .void) fun kept hkept => ?_
      have h := hnext (place.keep .void ++ kept) (Place.holds_keep_append hkept .void)
      rwa [Item.onto_append] at h
    · rw [Forest.tokens, List.cons_append, List.append_assoc, List.cons_append, turn]
      simp only [bind_assoc]
      refine conditional_settles ihInner.2 _ _ _ _ ?_
      exact bound_settles ihRest.1 .void stack tokens start loops next hagain hdone

/-- A body that closes, read with enough fuel. -/
theorem evaluate_settles {tokens : List Token} (hcloses : Closes [] tokens) :
    Settles (fun k j => Bracketry.evaluate (b.withCall (calls k)) program j tokens)
      ((ofTokens tokens).evaluate (b.withCall call) program fuel) := by
  have hitems : ItemsSettle b program calls call fuel (ofTokens tokens) := (itemsSettle_and_turnSettles hcall _).1
  have h := hitems .top [] [] [] (fun _ => pure ()) Place.isOn_top fun kept hkept => by
    obtain rfl : kept = [] := hkept
    exact Settles.of_eq (Settles.refl _) fun k j => by cases j <;> rfl
  rwa [List.append_nil, tokens_ofTokens hcloses] at h

end Settles

end Forest

/-! ## Both -/

/-- Two evaluations of a body from one state that both end, end alike. -/
theorem evaluate_unique (b : Backend σ V A) (program : Program) {tokens : List Token} {s : σ} {fuel more : Nat}
    (hfuel : ¬Exhausted (evaluate b program fuel tokens s)) (hmore : ¬Exhausted (evaluate b program more tokens s)) :
    evaluate b program fuel tokens s = evaluate b program more tokens s := by
  rcases Nat.le_total fuel more with h | h
  · exact (Pass.run_below_of_le program b h { rest := tokens } s).resolve_left hfuel
  · exact ((Pass.run_below_of_le program b h { rest := tokens } s).resolve_left hmore).symm

/-- A pass over a body whose brackets nest ends with a result and a state exactly when the evaluation of its forest by
recursion ends with them. -/
theorem evaluate_eq_iff_forest {tokens : List Token} (hnested : checkBrackets tokens = .ok ())
    (hfree : .opening .definition ∉ tokens) (b : Backend σ V A) (program : Program) (s : σ)
    (r : EStateM.Result Stop σ Unit) (hends : ¬Exhausted r) :
    (Forest.ofTokens tokens).tokens = tokens ∧
      ((∃ fuel, evaluate b program fuel tokens s = r) ↔
        ∃ fuel, (Forest.ofTokens tokens).evaluate b program fuel s = r) := by
  have hcloses := closes_of_checkBrackets hnested hfree
  refine ⟨Forest.tokens_ofTokens hcloses, ?_, ?_⟩
  · rintro ⟨fuel, rfl⟩
    have halike : b.Alike (.below σ) b := Backend.alike_below_refl b
    refine ⟨fuel, ?_⟩
    exact ((Forest.evaluate_below program halike hcloses (Nat.le_refl fuel) s).resolve_left hends).symm
  · rintro ⟨fuel, rfl⟩
    have hcall : ∀ name address, Settles (fun _ _ => b.call name address) (b.call name address) :=
      fun name address => Settles.refl (b.call name address)
    have hsettles : Settles (fun _ j => evaluate b program j tokens) ((Forest.ofTokens tokens).evaluate b program fuel) :=
      Forest.evaluate_settles (b := b) hcall hcloses
    obtain ⟨least, h⟩ := (hsettles s).resolve_left hends
    exact ⟨least, h least (Nat.le_refl least) least (Nat.le_refl least)⟩

/-- A loop that runs twice, traced. -/
theorem evaluate_eq_iff_forest_twice :
    let body : List Token :=
      [.opening .conditional, .literal 0, .builtin .decrement, .closing .conditional]
    let start : Trace := { tests := [true, true, false], exits := [true, true] }
    checkBrackets body = .ok () ∧ .opening .definition ∉ body ∧
      ∃ fuel, (Forest.ofTokens body).evaluate Trace.backend (Program.ofEntry body) fuel start =
        evaluate Trace.backend (Program.ofEntry body) 12 body start :=
  ⟨rfl, by decide, (evaluate_eq_iff_forest rfl (by decide) Trace.backend _ _ _ id).2.1 ⟨12, rfl⟩⟩

end Bracketry
