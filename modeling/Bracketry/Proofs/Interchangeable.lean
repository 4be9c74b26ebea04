import Bracketry.Proofs.Adequacy
import Bracketry.Proofs.WellNested

/-!
# Bodies in place of one another

A part of a body may be rewritten if the forest of the new body does what that of the old one does, and then every pass with enough
fuel does so too, also if it calls bodies that were rewritten.

* `Backend.Rereads` : accessors can be read once more, and looking a value up has no effect;
* `Forest.Same` : forests that do the same wherever they stand; `Forest.items_append`, `Forest.turn_append` and
  `Forest.same_foldr_grow` are what surrounds them;
* `Interchangeable` : bodies that do the same on every such backend;
* `Pass.run_settles` : a pass whose calls settle settles;
* `evaluate_settles_of_interchangeable`, `exists_evaluate_of_interchangeable` : what one body does, the other does with enough fuel.
-/

namespace Bracketry

variable {σ V A : Type}

/-- A backend on which an accessor may be read once more: looking values and accessors up has no effect, and no token that is applied
to a cell changes the address that another one names. -/
structure Backend.Rereads (b : Backend σ V A) (program : Program) : Prop where
  resolve (address : A) (s : σ) : ∃ value, b.resolve address s = .ok value s
  accessor {t : Token} {address : A} {s s' : σ} (h : Pass.accessor b (.pending t) s = .ok address s') : s' = s
  again {t other : Token} {address target : A} {s s' : σ} (hread : Pass.accessor b (.pending t) s = .ok target s)
    (h : Pass.applyToken b program address other s = .ok () s') : Pass.accessor b (.pending t) s' = .ok target s'

/-! ## Forests in place of one another -/

namespace Forest
variable (b : Backend σ V A) (program : Program) (fuel : Nat)

/-- Forests that do the same wherever they stand. -/
structure Same (forest other : Forest) : Prop where
  items (place : Place A) : forest.items b program fuel place = other.items b program fuel place
  turn : forest.turn b program fuel = other.turn b program fuel

variable {b program fuel}

theorem Same.refl (forest : Forest) : Same b program fuel forest forest := ⟨fun _ => rfl, rfl⟩

variable (b program fuel) in
theorem items_append (forest after : Forest) (place : Place A) :
    (forest.append after).items b program fuel place = (do
      let kept ← forest.items b program fuel place
      return kept ++ (← after.items b program fuel place)) := by
  induction forest with
  | nil => simp only [append, items, pure_bind, List.nil_append, bind_pure]
  | token t plain rest ih => simp only [append, items, ih, bind_assoc, pure_bind, List.append_assoc]
  | applicator inner rest _ ih => simp only [append, items, ih, bind_assoc, pure_bind, List.append_assoc]
  | conditional inner rest _ ih => simp only [append, items, ih, bind_assoc, pure_bind, List.append_assoc]

theorem bound_congr {body other : Place A → Action σ (List (Item V))} (h : ∀ address, body (.loop address) = other (.loop address))
    (item : Item V) : item.bound b body = item.bound b other := by
  unfold Item.bound
  simp only [h]

theorem turn_append {forest after other : Forest} (hne : forest ≠ nil)
    (h : ∀ address, after.items b program fuel (.loop address) = other.items b program fuel (.loop address)) :
    (forest.append after).turn b program fuel = (forest.append other).turn b program fuel := by
  have hrest (rest : Forest) (address : A) : (rest.append after).items b program fuel (.loop address) =
      (rest.append other).items b program fuel (.loop address) := by
    rw [items_append, items_append, h]
  cases forest with
  | nil => exact absurd rfl hne
  | token t plain rest => exact bound_congr (hrest rest) _
  | applicator inner rest =>
    rw [append, append, turn, turn]
    simp only [bound_congr (hrest rest)]
  | conditional inner rest =>
    rw [append, append, turn, turn]
    simp only [bound_congr (hrest rest)]

theorem same_token {t : Token} (plain : t.isPlain = true) {rest other : Forest} (h : Same b program fuel rest other) :
    Same b program fuel (token t plain rest) (token t plain other) where
  items place := by rw [items, items, h.items]
  turn := by
    rw [turn, turn]
    exact bound_congr (fun _ => h.items _) _

theorem same_applicator {inner inner' rest other : Forest} (hinner : Same b program fuel inner inner')
    (h : Same b program fuel rest other) : Same b program fuel (applicator inner rest) (applicator inner' other) where
  items place := by simp only [items, hinner.items, h.items]
  turn := by
    rw [turn, turn, hinner.items]
    simp only [bound_congr fun address => h.items (.loop address)]

theorem same_conditional {inner inner' rest other : Forest}
    (hinner : inner.turn b program fuel = inner'.turn b program fuel) (h : Same b program fuel rest other) :
    Same b program fuel (conditional inner rest) (conditional inner' other) where
  items place := by simp only [items, hinner, h.items]
  turn := by
    rw [turn, turn, hinner]
    simp only [bound_congr fun address => h.items (.loop address)]

/-- What is the same stays so in any surroundings. -/
theorem same_grow {forests others : List Forest} (h : List.Forall₂ (Same b program fuel) forests others) (t : Token) :
    List.Forall₂ (Same b program fuel) (grow t forests) (grow t others) := by
  cases h with
  | nil =>
    cases t with
    | closing kind => exact .cons (.refl nil) .nil
    | opening kind => cases kind <;> exact .nil
    | _ => exact .nil
  | cons hfirst hforests =>
    by_cases plain : t.isPlain = true
    · rw [grow_of_isPlain plain, grow_of_isPlain plain]
      exact .cons (same_token plain hfirst) hforests
    · cases t with
      | closing kind => exact .cons (.refl nil) (.cons hfirst hforests)
      | opening kind =>
        cases kind with
        | definition => exact .cons hfirst hforests
        | applicator =>
          cases hforests with
          | nil => exact .cons hfirst .nil
          | cons hrest hforests => exact .cons (same_applicator hfirst hrest) hforests
        | conditional =>
          cases hforests with
          | nil => exact .cons hfirst .nil
          | cons hrest hforests => exact .cons (same_conditional hfirst.turn hrest) hforests
      | _ => exact absurd rfl plain

theorem same_foldr_grow {forests others : List Forest} (h : List.Forall₂ (Same b program fuel) forests others)
    (tokens : List Token) : List.Forall₂ (Same b program fuel) (tokens.foldr grow forests) (tokens.foldr grow others) := by
  induction tokens with
  | nil => exact h
  | cons t tokens ih => exact same_grow ih t

end Forest

/-! ## Calls that settle -/

namespace Settles

/-- What settles to an action settles to what that one does with less fuel. -/
theorem of_below {α : Type} {xs : Nat → Nat → Action σ α} {x y : Action σ α} (h : Settles xs y) (hbelow : Below x y) :
    Settles xs x := by
  intro s
  rcases hbelow s with hexhausted | heq
  · exact .inl hexhausted
  · rw [heq]
    exact h s

end Settles

namespace Pass
variable (b : Backend σ V A) (program : Program) {calls : Nat → String → A → Action σ Unit}
  {call : String → A → Action σ Unit} (hcall : ∀ name address, Settles (fun k _ => calls k name address) (call name address))
include hcall

theorem deliver_settles (pass : Pass V A) (entry : Entry V A) :
    Settles (fun k _ => deliver (b.withCall (calls k)) program pass entry) (deliver (b.withCall call) program pass entry) := by
  unfold deliver
  generalize pass.innermost? = innermost
  rcases innermost with _ | _ | (_ | address) | _ | _ | _
  case some.conditional.some =>
    cases entry with
    | pending token => exact Settles.bind (applyToken_settles b program hcall address token) fun _ => Settles.refl _
    | _ => exact Settles.refl _
  all_goals cases entry <;> exact Settles.refl _

theorem closeApplicator_settles (pass : Pass V A) :
    Settles (fun k _ => closeApplicator (b.withCall (calls k)) program pass) (closeApplicator (b.withCall call) program pass) := by
  simp only [closeApplicator_eq_applied]
  generalize takeOperands [] pass.stack = taken
  rcases taken with _ | ⟨operands, stack⟩
  · exact Settles.refl _
  · exact Settles.bind (applied_settles b program hcall operands) fun value => deliver_settles b program hcall _ _

theorem step_settles (pass : Pass V A) (token : Token) :
    Settles (fun k _ => step (b.withCall (calls k)) program pass token) (step (b.withCall call) program pass token) := by
  cases token with
  | opening kind => cases kind <;> exact Settles.refl _
  | closing kind =>
    cases kind with
    | applicator => exact closeApplicator_settles b program hcall pass
    | conditional => exact Settles.refl (closeConditional b pass)
    | definition => exact Settles.refl _
  | _ => exact deliver_settles b program hcall pass _

/-- A pass settles if its calls do. -/
theorem run_settles (fuel : Nat) (pass : Pass V A) :
    Settles (fun k j => run (b.withCall (calls k)) program j pass) (run (b.withCall call) program fuel pass) := by
  induction fuel generalizing pass with
  | zero =>
    obtain ⟨rest, stack, loops⟩ := pass
    cases rest with
    | nil => exact Settles.of_eq (Settles.refl (finish b ⟨[], stack, loops⟩)) fun k j => by cases j <;> rfl
    | cons token tokens => exact Settles.exhausted _
  | succ fuel ih =>
    obtain ⟨rest, stack, loops⟩ := pass
    cases rest with
    | nil => exact Settles.of_eq (Settles.refl (finish b ⟨[], stack, loops⟩)) fun k j => by cases j <;> rfl
    | cons token tokens =>
      refine Settles.later ?_ fun k j => rfl
      exact Settles.bind (step_settles b program hcall ⟨tokens, stack, loops⟩ token) ih

end Pass

/-! ## Bodies in place of one another -/

/-- Bodies that are the same, or whose forests do the same on every backend where accessors can be read again. -/
def Interchangeable (body other : List Token) : Prop :=
  body = other ∨ Closes [] body ∧ Closes [] other ∧
    ∀ {σ V A : Type} (b : Backend σ V A) (program : Program), b.Rereads program → ∀ fuel,
      (Forest.ofTokens body).evaluate b program fuel = (Forest.ofTokens other).evaluate b program fuel

namespace Interchangeable
variable {body other : List Token}

theorem refl (body : List Token) : Interchangeable body body := .inl rfl

theorem symm (h : Interchangeable body other) : Interchangeable other body := by
  rcases h with rfl | ⟨hbody, hother, hsame⟩
  · exact .inl rfl
  · exact .inr ⟨hother, hbody, fun b program hb fuel => (hsame b program hb fuel).symm⟩

end Interchangeable

/-! ## A part of a body -/

/-- What is behind some of the tokens closes the brackets that they leave open, and so may anything else that does. -/
theorem Closes.of_append {openings : List Bracket} {before after : List Token} (h : Closes openings (before ++ after)) :
    Closes (before.foldl openAfter openings) after ∧
      ∀ other, Closes (before.foldl openAfter openings) other → Closes openings (before ++ other) := by
  induction before generalizing openings with
  | nil => exact ⟨h, fun _ => id⟩
  | cons t before ih =>
    cases h with
    | plain isPlain hrest =>
      have hopen : openAfter openings t = openings := by
        cases t with
        | opening kind => cases isPlain
        | closing kind => cases isPlain
        | _ => rfl
      rw [List.foldl_cons, hopen]
      exact ⟨(ih hrest).1, fun other hother => .plain isPlain ((ih hrest).2 other hother)⟩
    | opening isBody hrest => exact ⟨(ih hrest).1, fun other hother => .opening isBody ((ih hrest).2 other hother)⟩
    | closing hrest => exact ⟨(ih hrest).1, fun other hother => .closing ((ih hrest).2 other hother)⟩

theorem Forest.foldl_openAfter (forest : Forest) (openings : List Bracket) :
    forest.tokens.foldl openAfter openings = openings := by
  induction forest generalizing openings with
  | nil => rfl
  | token t plain rest ih =>
    cases t with
    | opening kind => cases plain
    | closing kind => cases plain
    | _ => exact ih openings
  | applicator inner rest ihInner ihRest =>
    rw [tokens, List.foldl_cons, List.foldl_append, ihInner, List.foldl_cons]
    exact ihRest openings
  | conditional inner rest ihInner ihRest =>
    rw [tokens, List.foldl_cons, List.foldl_append, ihInner, List.foldl_cons]
    exact ihRest openings

theorem WellNested.exists_forest {top : Bool} {tokens : List Token} (h : WellNested top tokens) (htop : top = false) :
    ∃ forest : Forest, forest.tokens = tokens := by
  induction h with
  | nil => exact ⟨.nil, rfl⟩
  | plain isPlain _ ih =>
    obtain ⟨rest, rfl⟩ := ih htop
    exact ⟨.token _ isPlain rest, rfl⟩
  | @bracket top kind inner rest hkind _ _ ihInner ihRest =>
    obtain ⟨inside, rfl⟩ := ihInner rfl
    obtain ⟨behind, rfl⟩ := ihRest htop
    cases kind with
    | applicator => exact ⟨.applicator inside behind, rfl⟩
    | conditional => exact ⟨.conditional inside behind, rfl⟩
    | definition => exact absurd ((hkind rfl).symm.trans htop) Bool.noConfusion

/-- What follows these tokens stands in no bracket, or in a conditional behind its accessor. -/
inductive Unheld : List Token → Prop
  | top {before : List Token} (h : openBrackets before = []) : Unheld before
  | behindAccessor {before items : List Token} (hitems : WellNested false items) (hne : items ≠ []) :
      Unheld (before ++ .opening .conditional :: items)

section
variable {forest other : Forest} {before after : List Token} {b : Backend σ V A} {program : Program} {fuel : Nat}

theorem evaluate_eq_of_top (hbefore : Closes [] before) (hafter : Closes [] after)
    (hsame : forest.items b program fuel .top = other.items b program fuel .top) :
    (Forest.ofTokens (before ++ (forest.tokens ++ after))).evaluate b program fuel =
      (Forest.ofTokens (before ++ (other.tokens ++ after))).evaluate b program fuel := by
  obtain ⟨first, hforests⟩ := List.length_eq_one_iff.1 (Forest.layers_of_closes hafter).1
  have hwhole (part : Forest) :
      Forest.ofTokens (before ++ (part.tokens ++ after)) = (Forest.ofTokens before).append (part.append first) := by
    have hpart := Forest.foldr_grow_tokens part first [] after hforests
    have hall := Forest.foldr_grow_tokens (Forest.ofTokens before) _ _ _ hpart
    rw [Forest.tokens_ofTokens hbefore] at hall
    rw [Forest.ofTokens, hall]
    rfl
  unfold Forest.evaluate
  rw [hwhole, hwhole]
  simp only [Forest.items_append, hsame]

theorem evaluate_eq_of_behindAccessor {inside : Forest} (hne : inside ≠ .nil) {openings : List Bracket}
    (hafter : Closes (.conditional :: openings) after)
    (hsame : ∀ address, forest.items b program fuel (.loop address) = other.items b program fuel (.loop address)) :
    (Forest.ofTokens (before ++ .opening .conditional :: (inside.tokens ++ (forest.tokens ++ after)))).evaluate b program fuel =
      (Forest.ofTokens (before ++ .opening .conditional :: (inside.tokens ++ (other.tokens ++ after)))).evaluate b program fuel := by
  obtain ⟨first, second, forests, hforests⟩ : ∃ first second forests,
      after.foldr Forest.grow [.nil] = first :: second :: forests := by
    have hlength := (Forest.layers_of_closes hafter).1
    match hread : after.foldr Forest.grow [.nil] with
    | [] => rw [hread] at hlength; cases hlength
    | [_] => rw [hread] at hlength; cases hlength
    | first :: second :: forests => exact ⟨first, second, forests, rfl⟩
  have hwhole (part : Forest) :
      (before ++ .opening .conditional :: (inside.tokens ++ (part.tokens ++ after))).foldr Forest.grow [.nil] =
        before.foldr Forest.grow (.conditional (inside.append (part.append first)) second :: forests) := by
    have hpart := Forest.foldr_grow_tokens part first _ after hforests
    rw [List.foldr_append, List.foldr_cons, Forest.foldr_grow_tokens inside _ _ _ hpart]
    rfl
  have hturn : (inside.append (forest.append first)).turn b program fuel =
      (inside.append (other.append first)).turn b program fuel := by
    refine Forest.turn_append hne fun address => ?_
    rw [Forest.items_append, Forest.items_append, hsame]
  have hbehind : List.Forall₂ (Forest.Same b program fuel) forests forests := List.forall₂_same.2 fun rest _ => .refl rest
  have hsurrounded := Forest.same_foldr_grow
    (.cons (Forest.same_conditional hturn (.refl second)) hbehind) before
  unfold Forest.evaluate Forest.ofTokens
  rw [hwhole, hwhole]
  generalize before.foldr Forest.grow (.conditional (inside.append (forest.append first)) second :: forests) = left at hsurrounded
  generalize before.foldr Forest.grow (.conditional (inside.append (other.append first)) second :: forests) = right at hsurrounded
  cases hsurrounded with
  | nil => rfl
  | cons hfirst _ => rw [List.headD_cons, List.headD_cons, hfirst.items]

/-- A part that nothing is kept of may be replaced by another one that does the same there. -/
theorem interchangeable_of_unheld (hbefore : Unheld before) (hcloses : Closes [] (before ++ (forest.tokens ++ after)))
    (hsame : ∀ {σ V A : Type} (b : Backend σ V A) (program : Program), b.Rereads program → ∀ fuel (place : Place A),
      place ≠ .applicator → forest.items b program fuel place = other.items b program fuel place) :
    Interchangeable (before ++ (forest.tokens ++ after)) (before ++ (other.tokens ++ after)) := by
  obtain ⟨hrest, hback⟩ := hcloses.of_append
  have hafter := hrest.of_append.1
  rw [forest.foldl_openAfter] at hafter
  refine .inr ⟨hcloses, hback _ (other.closes_tokens_append hafter), fun {σ V A} b program hb fuel => ?_⟩
  cases hbefore with
  | top h =>
    have hopen : before.foldl openAfter [] = [] := h
    rw [hopen] at hback hafter
    have hbody := hback [] .nil
    rw [List.append_nil] at hbody
    exact evaluate_eq_of_top hbody hafter (hsame b program hb fuel .top nofun)
  | @behindAccessor around items hitems hne =>
    obtain ⟨inside, rfl⟩ := hitems.exists_forest rfl
    rw [List.foldl_append, List.foldl_cons, inside.foldl_openAfter] at hafter
    rw [List.append_assoc, List.append_assoc]
    exact evaluate_eq_of_behindAccessor (fun hnil => hne (hnil ▸ rfl)) hafter fun address =>
      hsame b program hb fuel (.loop address) nofun

end

/-! ## The same ends -/

section
variable {b : Backend σ V A} {program : Program} {body other : List Token} (h : Interchangeable body other)
include h

/-- What a body does with some fuel, the other does with enough of it, if its calls settle. -/
theorem evaluate_settles_of_interchangeable {calls : Nat → String → A → Action σ Unit} {call : String → A → Action σ Unit}
    (hcall : ∀ name address, Settles (fun k _ => calls k name address) (call name address))
    (hrereads : (b.withCall call).Rereads program) (fuel : Nat) :
    Settles (fun k j => evaluate (b.withCall (calls k)) program j other) (evaluate (b.withCall call) program fuel body) := by
  rcases h with rfl | ⟨hbody, hother, hsame⟩
  · exact Pass.run_settles b program hcall fuel _
  · have hsettles : Settles (fun k j => evaluate (b.withCall (calls k)) program j other)
        ((Forest.ofTokens other).evaluate (b.withCall call) program fuel) := Forest.evaluate_settles hcall hother
    rw [← hsame _ program hrereads fuel] at hsettles
    exact hsettles.of_below (Forest.evaluate_below program (Backend.alike_below_refl _) hbody (Nat.le_refl fuel))

theorem exists_evaluate_of_interchangeable (hrereads : b.Rereads program) {s : σ} {fuel : Nat}
    (hends : ¬Exhausted (evaluate b program fuel body s)) :
    ∃ more, evaluate b program more other s = evaluate b program fuel body s := by
  have hcall : ∀ name address, Settles (fun _ _ => b.call name address) (b.call name address) :=
    fun name address => Settles.refl (b.call name address)
  have hsettles : Settles (fun _ j => evaluate b program j other) (evaluate b program fuel body) :=
    evaluate_settles_of_interchangeable h hcall hrereads fuel
  obtain ⟨least, hleast⟩ := (hsettles s).resolve_left hends
  exact ⟨least, hleast least (Nat.le_refl least) least (Nat.le_refl least)⟩

end

end Bracketry
