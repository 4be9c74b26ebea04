import Bracketry.Proofs.Recursion
import Bracketry.Proofs.Relator

/-!
# Grammars of bodies

Which tokens may stand where, and what two backends must agree on so that the bodies of a grammar are evaluated alike by both.

* `Spot` : the places of a body as they can be told from its text;
* `Grammar`, `Forest.fits` : which items may stand where, and the bodies that keep to it;
* `Kept` : what two applicators have kept of related items;
* `Backend.Follows`, `Backend.LoopsFollow` : two backends whose operations are related as far as the grammar lets a body ask
  for them, and whose conditionals are;
* `Forest.items_and_turn_related`, `Forest.evaluate_related` : then the evaluations of a body are.
-/

namespace Bracketry

/-- A place of a body: at the top, or in a bracket and first in it or not. -/
inductive Spot where
  | top
  | applicator (first : Bool)
  | loop (first : Bool)
deriving DecidableEq, Repr

/-- What may stand in a bracket. -/
structure Grammar where
  /-- The tokens that may be accessors. -/
  accessor : Token → Bool
  /-- The tokens that may be operands. -/
  operand : Token → Bool
  /-- Whether the value of an applicator may be an accessor or an operand. -/
  indirect : Bool

namespace Spot

def isFirst : Spot → Bool
  | top => false
  | applicator first | loop first => first

def next : Spot → Spot
  | top => top
  | applicator _ => applicator false
  | loop _ => loop false

def takesToken (grammar : Grammar) (spot : Spot) (t : Token) : Bool :=
  match spot with
  | top => false
  | applicator first | loop first => if first then grammar.accessor t else grammar.operand t

/-- Whether an applicator may stand here. At the top and behind the accessor of a conditional its value is dropped. -/
def takesValue (grammar : Grammar) : Spot → Bool
  | top | loop false => true
  | applicator _ | loop true => grammar.indirect

end Spot

/-- The items keep to the grammar, from this place on. Every bracket has an accessor, and it is no conditional. -/
def Forest.fits (grammar : Grammar) : Forest → Spot → Bool
  | nil, spot => !spot.isFirst
  | token t _ rest, spot => spot.takesToken grammar t && rest.fits grammar spot.next
  | applicator inner rest, spot =>
    spot.takesValue grammar && (inner.fits grammar (.applicator true) && rest.fits grammar spot.next)
  | conditional inner rest, spot => !spot.isFirst && (inner.fits grammar (.loop true) && rest.fits grammar spot.next)

/-! ## Related backends -/

section
variable {σ τ V W A B : Type}

/-- Items of related values that the grammar allows for an accessor or for an operand. -/
inductive Item.Related (grammar : Grammar) (RV : V → W → Prop) (first : Bool) : Item V → Item W → Prop where
  | token {t : Token} (h : (if first then grammar.accessor t else grammar.operand t) = true) :
      Related grammar RV first (.token t) (.token t)
  | value {v : V} {w : W} (h : grammar.indirect = true) (hvalue : RV v w) :
      Related grammar RV first (.value v) (.value w)
  | void (h : first = false) : Related grammar RV first .void .void

/-- Related items, as they are kept by two applicators. An accessor is among them. -/
inductive Kept (grammar : Grammar) (RV : V → W → Prop) : Bool → List (Item V) → List (Item W) → Prop where
  | nil : Kept grammar RV false [] []
  | cons {first : Bool} {item : Item V} {item' : Item W} {items : List (Item V)} {items' : List (Item W)}
      (head : item.Related grammar RV first item') (tail : Kept grammar RV false items items') :
      Kept grammar RV first (item :: items) (item' :: items')

/-- Related items of an applicator. From other places nothing is kept. -/
def Spot.Kept (grammar : Grammar) (RV : V → W → Prop) : Spot → List (Item V) → List (Item W) → Prop
  | applicator first => Bracketry.Kept grammar RV first
  | _ => fun _ _ => True

inductive Place.Related (RA : A → B → Prop) : Spot → Place A → Place B → Prop where
  | top : Related RA .top .top .top
  | applicator (first : Bool) : Related RA (.applicator first) .applicator .applicator
  | loop {a : A} {a' : B} (h : RA a a') : Related RA (.loop false) (.loop a) (.loop a')

theorem Place.Related.next {RA : A → B → Prop} {spot : Spot} {place : Place A} {place' : Place B}
    (h : Place.Related RA spot place place') : Place.Related RA spot.next place place' := by
  cases h with
  | top => exact .top
  | applicator first => exact .applicator false
  | loop h => exact .loop h

/-- The operations that a body of the grammar can ask for are related. -/
structure Backend.Follows (rel : Relator σ τ) (grammar : Grammar) (RV : V → W → Prop) (RA : A → B → Prop)
    (program : Program) (b : Backend σ V A) (c : Backend τ W B) : Prop where
  accessor (t : Token) (h : grammar.accessor t = true) :
    rel.Rel RA (Pass.accessor b (.pending t)) (Pass.accessor c (.pending t))
  resolveAccessor (v : V) (w : W) (h : grammar.indirect = true) (hvalue : RV v w) :
    rel.Rel RA (b.resolveAccessor v) (c.resolveAccessor w)
  applyToken (t : Token) (a : A) (a' : B) (h : grammar.operand t = true) (haddress : RA a a') :
    rel.Rel Eq (Pass.applyToken b program a t) (Pass.applyToken c program a' t)
  assign (a : A) (a' : B) (v : V) (w : W) (h : grammar.indirect = true) (haddress : RA a a') (hvalue : RV v w) :
    rel.Rel Eq (b.assign a v) (c.assign a' w)
  resolve (a : A) (a' : B) (haddress : RA a a') : rel.Rel RV (b.resolve a) (c.resolve a')

/-- The conditionals are related as well. `Turn` is the relation between their turns; where one side takes turns and the
other does not, it is not the one between actions. -/
structure Backend.LoopsFollow (rel : Relator σ τ) (Turn : Action σ Bool → Action τ Bool → Prop) (RA : A → B → Prop)
    (fuel fuel' : Nat) (b : Backend σ V A) (c : Backend τ W B) : Prop where
  bind {α β : Type} {R : α → β → Prop} {x : Action σ α} {y : Action τ β} {f : α → Action σ Bool} {g : β → Action τ Bool}
    (hxy : rel.Rel R x y) (hfg : ∀ a a', R a a' → Turn (f a) (g a')) : Turn (x >>= f) (y >>= g)
  turn {a : A} {a' : B} (haddress : RA a a') {x : Action σ (List (Item V))} {y : Action τ (List (Item W))}
    (hxy : rel.Rel (fun _ _ => True) x y) : Turn (b.turn a x) (c.turn a' y)
  repeating {x : Action σ Bool} {y : Action τ Bool} (hxy : Turn x y) :
    rel.Rel Eq (b.enterLoop >>= fun _ => Action.repeating x fuel) (c.enterLoop >>= fun _ => Action.repeating y fuel')

theorem Action.repeating_related {rel : Relator σ τ} {x : Action σ Bool} {y : Action τ Bool} (hxy : rel.Rel Eq x y)
    (fuel : Nat) : rel.Rel Eq (Action.repeating x fuel) (Action.repeating y fuel) := by
  induction fuel with
  | zero => exact rel.exhausted Eq
  | succ fuel ih =>
    refine rel.bind hxy ?_
    rintro again _ rfl
    cases again with
    | true => exact ih
    | false => exact rel.pure rfl

/-- Conditionals are related turn by turn when their tests and their ends are. -/
theorem Backend.LoopsFollow.of_operations {rel : Relator σ τ} {RA : A → B → Prop} {b : Backend σ V A} {c : Backend τ W B}
    (henter : rel.Rel Eq b.enterLoop c.enterLoop) (htest : ∀ a a', RA a a' → rel.Rel Eq (b.testLoop a) (c.testLoop a'))
    (hexit : ∀ a a', RA a a' → rel.Rel Eq (b.exitLoop a) (c.exitLoop a')) (fuel : Nat) :
    b.LoopsFollow rel (rel.Rel Eq) RA fuel fuel c where
  bind := rel.bind
  turn {a a'} haddress {x y} hxy := by
    refine rel.bind (htest a a' haddress) ?_
    rintro answer _ rfl
    cases answer with
    | skip => exact rel.pure rfl
    | run =>
      refine rel.bind hxy fun _ _ _ => rel.bind (hexit a a' haddress) ?_
      rintro answer _ rfl
      cases answer <;> exact rel.pure rfl
  repeating hxy := rel.bind henter fun _ _ _ => Action.repeating_related hxy fuel

section Related
variable {rel : Relator σ τ} {grammar : Grammar} {RV : V → W → Prop} {RA : A → B → Prop} {program : Program}
  {b : Backend σ V A} {c : Backend τ W B} (h : b.Follows rel grammar RV RA program c)

include h

theorem Item.address_related {item : Item V} {item' : Item W} (hitem : item.Related grammar RV true item') :
    rel.Rel RA (item.address b) (item'.address c) := by
  cases hitem with
  | @token t ht =>
    rw [← accessor_entry, ← accessor_entry]
    exact h.accessor t ht
  | value hindirect hvalue => exact h.resolveAccessor _ _ hindirect hvalue
  | void hfirst => cases hfirst

theorem Item.token_related {t : Token} (ht : grammar.operand t = true) {a : A} {a' : B} (haddress : RA a a') :
    rel.Rel Eq (apply b program a (.token t)) (apply c program a' (.token t)) := by
  rw [← applyToken_eq, ← applyToken_eq]
  exact h.applyToken t a a' ht haddress

theorem Item.apply_related {a : A} {a' : B} (haddress : RA a a') {items : List (Item V)} {items' : List (Item W)}
    (hitems : Kept grammar RV false items items') :
    rel.Rel Eq (items.forM (apply b program a)) (items'.forM (apply c program a')) := by
  generalize hfirst : false = first at hitems
  induction hitems with
  | nil => exact rel.pure rfl
  | cons head _ ih =>
    refine rel.bind (R := Eq) ?_ fun _ _ _ => ih rfl
    subst hfirst
    cases head with
    | token ht => exact token_related h ht haddress
    | value hindirect hvalue => exact h.assign _ _ _ _ hindirect haddress hvalue
    | void _ => exact rel.pure rfl

theorem Item.applied_related {items : List (Item V)} {items' : List (Item W)} (hitems : Kept grammar RV true items items') :
    rel.Rel RV (applied b program items) (applied c program items') := by
  cases hitems with
  | cons head tail =>
    refine rel.bind (address_related h head) fun a a' haddress => ?_
    refine rel.bind (apply_related h haddress tail) fun _ _ _ => ?_
    exact h.resolve a a' haddress

/-- A token that may stand here does the same on both sides, and the same is kept of it. -/
theorem Place.token_related {spot : Spot} {place : Place A} {place' : Place B}
    (hplace : Place.Related RA spot place place') {t : Token} (ht : spot.takesToken grammar t = true)
    {kept : Action σ (List (Item V))} {kept' : Action τ (List (Item W))}
    (hrest : rel.Rel (Spot.Kept grammar RV spot.next) kept kept') :
    rel.Rel (Spot.Kept grammar RV spot)
      (do place.act b program (.token t); return place.keep (.token t) ++ (← kept))
      (do place'.act c program (.token t); return place'.keep (.token t) ++ (← kept')) := by
  cases hplace with
  | top => cases ht
  | applicator first =>
    refine rel.bind (rel.pure (R := Eq) rfl) fun _ _ _ => rel.bind hrest fun items items' hitems => ?_
    exact rel.pure (Kept.cons (.token ht) hitems)
  | loop haddress =>
    refine rel.bind (Item.token_related h ht haddress) fun _ _ _ => rel.bind hrest fun _ _ _ => ?_
    exact rel.pure trivial

omit h in
theorem Place.value_related {spot : Spot} {place : Place A} {place' : Place B}
    (hplace : Place.Related RA spot place place') (hspot : spot.takesValue grammar = true) {v : V} {w : W}
    (hvalue : RV v w) {kept : Action σ (List (Item V))} {kept' : Action τ (List (Item W))}
    (hrest : rel.Rel (Spot.Kept grammar RV spot.next) kept kept') :
    rel.Rel (Spot.Kept grammar RV spot)
      (do place.act b program (.value v); return place.keep (.value v) ++ (← kept))
      (do place'.act c program (.value w); return place'.keep (.value w) ++ (← kept')) := by
  cases hplace with
  | applicator first =>
    refine rel.bind (rel.pure (R := Eq) rfl) fun _ _ _ => rel.bind hrest fun items items' hitems => ?_
    exact rel.pure (Kept.cons (.value hspot hvalue) hitems)
  | top => exact rel.bind (rel.pure (R := Eq) rfl) fun _ _ _ => rel.bind hrest fun _ _ _ => rel.pure trivial
  | loop _ => exact rel.bind (rel.pure (R := Eq) rfl) fun _ _ _ => rel.bind hrest fun _ _ _ => rel.pure trivial

omit h in
theorem Place.void_related {spot : Spot} {place : Place A} {place' : Place B}
    (hplace : Place.Related RA spot place place') (hspot : spot.isFirst = false)
    {kept : Action σ (List (Item V))} {kept' : Action τ (List (Item W))}
    (hrest : rel.Rel (Spot.Kept grammar RV spot.next) kept kept') :
    rel.Rel (Spot.Kept grammar RV spot) (do return place.keep .void ++ (← kept))
      (do return place'.keep .void ++ (← kept')) := by
  cases hplace with
  | applicator first =>
    refine rel.bind hrest fun items items' hitems => ?_
    exact rel.pure (Kept.cons (.void hspot) hitems)
  | top => exact rel.bind hrest fun _ _ _ => rel.pure trivial
  | loop _ => exact rel.bind hrest fun _ _ _ => rel.pure trivial

namespace Forest

variable {Turn : Action σ Bool → Action τ Bool → Prop} {fuel fuel' : Nat}
  (hloops : b.LoopsFollow rel Turn RA fuel fuel' c)
include hloops

theorem items_and_turn_related (forest : Forest) :
    (∀ spot place place', forest.fits grammar spot = true → Place.Related RA spot place place' →
      rel.Rel (Spot.Kept grammar RV spot) (forest.items b program fuel place) (forest.items c program fuel' place')) ∧
    (forest.fits grammar (.loop true) = true → Turn (forest.turn b program fuel) (forest.turn c program fuel')) := by
  -- Behind its accessor a conditional goes on as the rest of its items does, whatever the accessor was.
  have hbound : ∀ {rest : Forest}, (∀ spot place place', rest.fits grammar spot = true →
      Place.Related RA spot place place' →
        rel.Rel (Spot.Kept grammar RV spot) (rest.items b program fuel place) (rest.items c program fuel' place')) →
      rest.fits grammar (.loop false) = true → ∀ {item : Item V} {item' : Item W}, item.Related grammar RV true item' →
      Turn (item.bound b (rest.items b program fuel)) (item'.bound c (rest.items c program fuel')) := by
    intro rest ih hrest item item' hitem
    refine hloops.bind (Item.address_related h hitem) fun a a' haddress => ?_
    exact hloops.turn haddress (ih _ _ _ hrest (.loop haddress))
  induction forest with
  | nil =>
    refine ⟨fun spot place place' hfits hplace => ?_, fun hfits => by cases hfits⟩
    cases hplace with
    | applicator first =>
      cases first with
      | true => cases hfits
      | false => exact rel.pure Kept.nil
    | top => exact rel.pure trivial
    | loop _ => exact rel.pure trivial
  | token t plain rest ih =>
    refine ⟨fun spot place place' hfits hplace => ?_, fun hfits => ?_⟩
    · obtain ⟨ht, hrest⟩ := Bool.and_eq_true_iff.1 hfits
      exact Place.token_related h hplace ht (ih.1 _ _ _ hrest hplace.next)
    · obtain ⟨ht, hrest⟩ := Bool.and_eq_true_iff.1 hfits
      exact hbound ih.1 hrest (.token ht)
  | applicator inner rest ihInner ihRest =>
    refine ⟨fun spot place place' hfits hplace => ?_, fun hfits => ?_⟩
    · obtain ⟨hspot, hfits⟩ := Bool.and_eq_true_iff.1 hfits
      obtain ⟨hinner, hrest⟩ := Bool.and_eq_true_iff.1 hfits
      refine rel.bind (ihInner.1 _ _ _ hinner (.applicator true)) fun items items' hitems => ?_
      refine rel.bind (Item.applied_related h hitems) fun v w hvalue => ?_
      exact Place.value_related hplace hspot hvalue (ihRest.1 _ _ _ hrest hplace.next)
    · obtain ⟨hspot, hfits⟩ := Bool.and_eq_true_iff.1 hfits
      obtain ⟨hinner, hrest⟩ := Bool.and_eq_true_iff.1 hfits
      refine hloops.bind (ihInner.1 _ _ _ hinner (.applicator true)) fun items items' hitems => ?_
      refine hloops.bind (Item.applied_related h hitems) fun v w hvalue => ?_
      exact hbound ihRest.1 hrest (.value hspot hvalue)
  | conditional inner rest ihInner ihRest =>
    refine ⟨fun spot place place' hfits hplace => ?_, fun hfits => by cases hfits⟩
    obtain ⟨hspot, hfits⟩ := Bool.and_eq_true_iff.1 hfits
    obtain ⟨hinner, hrest⟩ := Bool.and_eq_true_iff.1 hfits
    have hvoid := Place.void_related hplace (Bool.not_eq_true' _ ▸ hspot) (ihRest.1 _ _ _ hrest hplace.next)
    have hitems := rel.bind (hloops.repeating (ihInner.2 hinner)) fun _ _ _ => hvoid
    rw [bind_assoc, bind_assoc] at hitems
    exact hitems

/-- Bodies of the grammar are evaluated alike. -/
theorem evaluate_related {forest : Forest} (hfits : forest.fits grammar .top = true) :
    rel.Rel Eq (forest.evaluate b program fuel) (forest.evaluate c program fuel') :=
  rel.bind ((items_and_turn_related h hloops forest).1 _ _ _ hfits .top) fun _ _ _ => rel.pure rfl

end Forest

end Related

end

end Bracketry
