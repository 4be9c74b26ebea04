import Bracketry.Proofs.Called
import Bracketry.Proofs.CProgram.Listing
import Bracketry.Proofs.Grammar
import Bracketry.Proofs.Straight

/-!
# Bodies that can be written in C

Every token of a body is looked at once when it is written in C. What is not refused then keeps to a grammar.

* `translatable` : the grammar of the bodies that can be written;
* `Generator.backend_straight` : writing is a straight pass, so what is written closes (`evaluate_of_generate`);
* `fits_of_generate` : and it keeps to the grammar;
* `Translates` : every body of a program can be written; `translates_of_listing` says that a listing needs no less.
-/

namespace Bracketry.CProgram

/-- What may stand in a body that can be written in C. Numbers that are accessors must name a cell, the argument must be one,
and calls must be of applications. -/
def translatable (limits : Limits) (program : Program) (inApplication : Bool) : Grammar where
  accessor
    | .literal value => (limits.checkAddress value).isOk
    | .parameter => inApplication
    | _ => false
  operand
    | .builtin _ | .literal _ => true
    | .parameter => inApplication
    | .identifier name => program.isApplication name
    | _ => false
  indirect := true

def anyValue (_ _ : Expr) : Prop := True

namespace Generator
variable {limits : Limits} (program : Program) {inApplication : Bool}

theorem backend_straight (limits : Limits) (inApplication : Bool) : (backend limits inApplication).Straight where
  testLoop _ := Action.gives_bind (Action.gives_any _) fun _ _ => Action.gives_pure rfl
  exitLoop _ := Action.gives_bind (Action.gives_any _) fun _ _ =>
    Action.gives_bind (Action.gives_any _) fun _ _ => Action.gives_pure rfl

/-! ## What the operations refuse -/

theorem address_gives (value : Int64) :
    (address limits (.literal value)).Gives fun _ => (limits.checkAddress value).isOk = true := by
  cases hcheck : limits.checkAddress value with
  | ok _ => exact fun _ _ _ _ => rfl
  | error error =>
    intro s e s' h
    rw [address, hcheck] at h
    cases h

theorem accessor_gives (item : Item Expr) :
    (item.address (backend limits inApplication)).Gives fun _ =>
      item.Related (translatable limits program inApplication) anyValue true item := by
  cases item with
  | token t =>
    cases t with
    | literal value =>
      intro s e s' h
      exact .token (address_gives value s e s' h)
    | parameter =>
      cases inApplication with
      | true => exact fun _ _ _ _ => .token rfl
      | false => exact Action.gives_bind (Action.gives_fault _ fun _ => False) fun _ h => h.elim
    | _ => exact Action.gives_fault _ _
  | value v => exact fun _ _ _ _ => .value rfl trivial
  | void => exact Action.gives_fault _ _

theorem applyToken_gives (address : Expr) (t : Token) :
    (Item.apply (backend limits inApplication) program address (.token t)).Gives fun _ =>
      (translatable limits program inApplication).operand t = true := by
  cases t with
  | builtin op => exact fun _ _ _ _ => rfl
  | literal value => exact fun _ _ _ _ => rfl
  | parameter =>
    cases inApplication with
    | true => exact fun _ _ _ _ => rfl
    | false => exact Action.gives_bind (Action.gives_fault _ fun _ => False) fun _ h => h.elim
  | identifier name =>
    change (if program.isApplication name then _ else _ : Action Generator Unit).Gives fun _ =>
      program.isApplication name = true
    split
    · next happlication => exact fun _ _ _ _ => happlication
    · exact Action.gives_fault _ _
  | _ => exact Action.gives_fault _ _

theorem apply_gives (address : Expr) (item : Item Expr) :
    (item.apply (backend limits inApplication) program address).Gives fun _ =>
      item.Related (translatable limits program inApplication) anyValue false item := by
  cases item with
  | token t =>
    intro s _ s' h
    exact .token (applyToken_gives program address t s () s' h)
  | value v => exact fun _ _ _ _ => .value rfl trivial
  | void => exact fun _ _ _ _ => .void rfl

theorem applyOperands_gives (address : Expr) (items : List (Item Expr)) :
    (items.forM (Item.apply (backend limits inApplication) program address)).Gives fun _ =>
      Kept (translatable limits program inApplication) anyValue false items items := by
  induction items with
  | nil => exact fun _ _ _ _ => .nil
  | cons item items ih =>
    refine Action.gives_bind (apply_gives program address item) fun _ hitem s _ s' h => ?_
    exact .cons hitem (ih s () s' h)

theorem applied_gives (items : List (Item Expr)) :
    (Item.applied (backend limits inApplication) program items).Gives fun _ =>
      Kept (translatable limits program inApplication) anyValue true items items := by
  cases items with
  | nil => exact Action.gives_fault _ _
  | cons item items =>
    refine Action.gives_bind (accessor_gives program item) fun address hitem => ?_
    refine Action.gives_bind (applyOperands_gives program address items) fun _ hitems => ?_
    exact fun _ _ _ _ => .cons hitem hitems

theorem bound_gives (item : Item Expr) {body : Place Expr → Action Generator (List (Item Expr))} {P : Prop}
    (hbody : ∀ address, (body (.loop address)).Gives fun _ => P) :
    (item.bound (backend limits inApplication) body).Gives fun _ =>
      item.Related (translatable limits program inApplication) anyValue true item ∧ P := by
  refine Action.gives_bind (accessor_gives program item) fun address hitem => ?_
  refine Action.gives_bind ((backend_straight limits inApplication).testLoop address) ?_
  rintro answer rfl
  refine Action.gives_bind (hbody address) fun _ hP => ?_
  exact fun _ _ _ _ => ⟨hitem, hP⟩

theorem repeating_gives {turn : Action Generator Bool} {P : Prop} (hturn : turn.Gives fun _ => P) (fuel : Nat) :
    (Action.repeating turn fuel).Gives fun _ => P := by
  cases fuel with
  | zero =>
    intro s _ s' h
    cases h
  | succ fuel => exact Action.gives_bind hturn fun _ hP _ _ _ _ => hP

/-! ## What a whole body keeps to -/

theorem next_of_kept {grammar : Grammar} {spot : Spot} {place : Place Expr}
    (hplace : Place.Related (fun _ _ => True) spot place place) {item : Item Expr} {kept : List (Item Expr)}
    (h : spot.Kept grammar anyValue (place.keep item ++ kept) (place.keep item ++ kept)) :
    spot.next.Kept grammar anyValue kept kept ∧
      ∀ first, spot = .applicator first → item.Related grammar anyValue first item := by
  cases hplace with
  | top => exact ⟨trivial, fun _ h => by cases h⟩
  | applicator first =>
    cases h with
    | cons head tail =>
      refine ⟨tail, fun _ hfirst => ?_⟩
      obtain rfl := Spot.applicator.inj hfirst
      exact head
  | loop _ => exact ⟨trivial, fun _ h => by cases h⟩

theorem takesValue_translatable (spot : Spot) : spot.takesValue (translatable limits program inApplication) = true := by
  cases spot with
  | top => rfl
  | applicator first => rfl
  | loop first => cases first <;> rfl

theorem takesToken_gives {spot : Spot} {place : Place Expr} (hplace : Place.Related (fun _ _ => True) spot place place)
    (t : Token) :
    (place.act (backend limits inApplication) program (.token t)).Gives fun _ => ∀ kept,
      spot.Kept (translatable limits program inApplication) anyValue (place.keep (.token t) ++ kept)
        (place.keep (.token t) ++ kept) → spot.takesToken (translatable limits program inApplication) t = true := by
  cases hplace with
  | top => exact Action.gives_fault _ _
  | applicator first =>
    intro _ _ _ _ kept hkept
    have hitem := (next_of_kept (.applicator first) hkept).2 first rfl
    cases hitem with
    | token ht => exact ht
  | loop _ =>
    intro s _ s' h kept _
    exact applyToken_gives program _ t s () s' h

theorem isFirst_of_void {grammar : Grammar} {spot : Spot} {place : Place Expr}
    (hplace : Place.Related (fun _ _ => True) spot place place) {kept : List (Item Expr)}
    (h : spot.Kept grammar anyValue (place.keep .void ++ kept) (place.keep .void ++ kept)) : spot.isFirst = false := by
  cases hplace with
  | top => rfl
  | applicator first =>
    cases (next_of_kept (.applicator first) h).2 first rfl with
    | void hfirst => exact hfirst
  | loop _ => rfl

/-- A forest whose items can be written keeps to the grammar, as far as it does not wait for its bracket to close. -/
theorem items_and_turn_gives (fuel : Nat) (forest : Forest) :
    (∀ spot place, Place.Related (fun _ _ => True) spot place place →
      (forest.items (backend limits inApplication) program fuel place).Gives fun kept =>
        spot.Kept (translatable limits program inApplication) anyValue kept kept →
          forest.fits (translatable limits program inApplication) spot = true) ∧
    (forest.turn (backend limits inApplication) program fuel).Gives fun _ =>
      forest.fits (translatable limits program inApplication) (.loop true) = true := by
  -- What an applicator keeps is looked at when its bracket closes: its items keep to the grammar once that has gone well.
  induction forest with
  | nil =>
    refine ⟨fun spot place hplace s kept s' h => ?_, Action.gives_fault _ _⟩
    obtain ⟨rfl, -⟩ := EStateM.Result.ok.inj h
    intro hkept
    cases hplace with
    | applicator first => cases hkept; rfl
    | top => rfl
    | loop _ => rfl
  | token t plain rest ih =>
    refine ⟨fun spot place hplace => ?_, ?_⟩
    · refine Action.gives_bind (takesToken_gives program hplace t) fun _ ht => ?_
      refine Action.gives_bind (ih.1 spot.next place hplace.next) fun kept hrest => Action.gives_pure fun hkept => ?_
      exact Bool.and_eq_true_iff.2 ⟨ht kept hkept, hrest (next_of_kept hplace hkept).1⟩
    · intro s again s' h
      have hbound := bound_gives program (.token t) (P := rest.fits _ (.loop false) = true)
        (fun address s kept s' h => (ih.1 _ _ (.loop trivial)) s kept s' h trivial) s again s' h
      cases hbound.1 with
      | token ht => exact Bool.and_eq_true_iff.2 ⟨ht, hbound.2⟩
  | applicator inner rest ihInner ihRest =>
    refine ⟨fun spot place hplace => ?_, ?_⟩
    · refine Action.gives_bind (ihInner.1 _ _ (.applicator true)) fun kept hinner => ?_
      refine Action.gives_bind (applied_gives program kept) fun value hkept => ?_
      refine Action.gives_bind (Action.gives_any _) fun _ _ => ?_
      refine Action.gives_bind (ihRest.1 spot.next place hplace.next) fun kept hrest => Action.gives_pure fun h => ?_
      refine Bool.and_eq_true_iff.2 ⟨takesValue_translatable program spot, Bool.and_eq_true_iff.2 ⟨hinner hkept, ?_⟩⟩
      exact hrest (next_of_kept hplace h).1
    · refine Action.gives_bind (ihInner.1 _ _ (.applicator true)) fun kept hinner => ?_
      refine Action.gives_bind (applied_gives program kept) fun value hkept s again s' h => ?_
      have hbound := bound_gives program (.value value) (P := rest.fits _ (.loop false) = true)
        (fun address s kept s' h => (ihRest.1 _ _ (.loop trivial)) s kept s' h trivial) s again s' h
      exact Bool.and_eq_true_iff.2
        ⟨takesValue_translatable program _, Bool.and_eq_true_iff.2 ⟨hinner hkept, hbound.2⟩⟩
  | conditional inner rest ihInner ihRest =>
    refine ⟨fun spot place hplace => ?_, ?_⟩
    · refine Action.gives_bind (Action.gives_any _) fun _ _ => ?_
      refine Action.gives_bind (repeating_gives ihInner.2 fuel) fun _ hinner => ?_
      refine Action.gives_bind (ihRest.1 spot.next place hplace.next) fun kept hrest => Action.gives_pure fun h => ?_
      refine Bool.and_eq_true_iff.2 ⟨?_, Bool.and_eq_true_iff.2 ⟨hinner, hrest (next_of_kept hplace h).1⟩⟩
      rw [isFirst_of_void hplace h]
      rfl
    · refine Action.gives_bind (Action.gives_any _) fun _ _ => ?_
      refine Action.gives_bind (Action.gives_any _) fun _ _ s again s' h => ?_
      cases (bound_gives program .void (P := True) (fun _ => Action.gives_any _) s again s' h).1 with
      | void hfirst => cases hfirst

theorem evaluate_gives (fuel : Nat) (forest : Forest) :
    (forest.evaluate (backend limits inApplication) program fuel).Gives fun _ =>
      forest.fits (translatable limits program inApplication) .top = true :=
  Action.gives_bind ((items_and_turn_gives program fuel forest).1 .top .top .top) fun _ hfits _ _ _ _ => hfits trivial

end Generator

/-! ## Bodies and programs -/

section
variable {limits : Limits} {program : Program} {inApplication : Bool} {body : List Token}

theorem evaluate_of_generate {generator : Generator} (h : generate limits program inApplication body = .ok () generator) :
    Closes [] body ∧ (Forest.ofTokens body).evaluate (Generator.backend limits inApplication) program body.length {} =
      .ok () generator := by
  have hcloses : Closes [] body := closes_of_evaluate (Generator.backend_straight limits inApplication) h
  have hbelow := Forest.evaluate_below program (Backend.alike_below_refl (Generator.backend limits inApplication)) hcloses
    (Nat.le_refl body.length) {}
  refine ⟨hcloses, ?_⟩
  rcases hbelow with hexhausted | heq
  · rw [show evaluate _ program _ body _ = _ from h] at hexhausted
    exact hexhausted.elim
  · exact heq.symm.trans h

theorem fits_of_generate {generator : Generator} (h : generate limits program inApplication body = .ok () generator) :
    (Forest.ofTokens body).fits (translatable limits program inApplication) .top = true :=
  Generator.evaluate_gives program _ _ _ _ _ (evaluate_of_generate h).2

theorem exists_generator_of_linesOf {lines : List Line} (h : linesOf limits program inApplication body = .ok lines) :
    ∃ generator, generate limits program inApplication body = .ok () generator ∧ generator.lines.toList = lines := by
  unfold linesOf at h
  cases hgenerate : generate limits program inApplication body with
  | error stop generator => rw [hgenerate] at h; cases h
  | ok _ generator =>
    rw [hgenerate] at h
    exact ⟨generator, rfl, Except.ok.inj h⟩

variable (limits program) in
/-- Every body of the program can be written in C. -/
structure Translates : Prop where
  /-- The brackets of every body nest. -/
  closed : program.Closed
  /-- The applications keep to the grammar. -/
  application (name : String) (body : List Token) (h : program.body? name = some body) (hname : name ≠ entryName) :
    (Forest.ofTokens body).fits (translatable limits program true) .top = true
  /-- The entry point does. -/
  entry : (Forest.ofTokens program.entry).fits (translatable limits program false) .top = true

/-- A program that has a listing can be written in C. -/
theorem translates_of_listing {listing : Listing} (h : Listing.ofProgram limits program = .ok listing) :
    Translates limits program := by
  obtain ⟨generator, hentry, -⟩ := exists_generator_of_linesOf (main_of_listing h).2
  have happlication : ∀ name body, program.body? name = some body → name ≠ entryName →
      ∃ generator, generate limits program true body = .ok () generator := by
    intro name body hbody hname
    rw [← Program.lookup_applications hname] at hbody
    rcases lookup_of_listing h name with ⟨hnone, -⟩ | ⟨other, lines, hother, hlines, -⟩
    · rw [hbody] at hnone
      cases hnone
    · obtain rfl := Option.some.inj (hbody.symm.trans hother)
      obtain ⟨generator, hgenerate, -⟩ := exists_generator_of_linesOf hlines
      exact ⟨generator, hgenerate⟩
  refine ⟨fun name body hbody => ?_, fun name body hbody hname => ?_, fits_of_generate hentry⟩
  · by_cases hname : name = entryName
    · have : program.entry = body := by
        rw [Program.entry, ← hname, hbody]
        rfl
      exact this ▸ (evaluate_of_generate hentry).1
    · obtain ⟨generator, hgenerate⟩ := happlication name body hbody hname
      exact (evaluate_of_generate hgenerate).1
  · obtain ⟨generator, hgenerate⟩ := happlication name body hbody hname
    exact fits_of_generate hgenerate

end

end Bracketry.CProgram
