import Bracketry.Proofs.CProgram.Replacing

/-!
# Applicators in two parts

An applicator on a cell may be closed between two operands and opened again on the same cell, unless its value is wanted.

* `applicatorOn` : an applicator on the cell that a token names;
* `Backend.Rereads.applied_append` : what its operands do, part by part;
* `interchangeable_applicatorOn` : where nothing is kept of it, an applicator is interchangeable with its parts;
* `applicator_split` : hence runs and translations are the same with either.
-/

namespace Bracketry

variable {σ V A : Type} {b : Backend σ V A} {program : Program}

def applicatorOn (accessor : Token) (operands : List Token) : List Token := bracketed .applicator (accessor :: operands)

/-! ## Operands in two parts -/

namespace Backend.Rereads
variable (hb : b.Rereads program)
include hb

theorem again_forM {t : Token} {address target : A} {s s' : σ} (hread : Item.address b (.token t) s = .ok target s)
    (operands : List Token) (h : (operands.map Item.token).forM (Item.apply b program address) s = .ok () s') :
    Item.address b (.token t) s' = .ok target s' := by
  induction operands generalizing s with
  | nil =>
    obtain ⟨-, rfl⟩ := EStateM.Result.ok.inj h
    exact hread
  | cons operand operands ih =>
    obtain ⟨_, mid, hoperand, hrest⟩ := Action.of_bind_eq_ok h
    rw [← Item.accessor_entry] at hread
    rw [← Item.applyToken_eq] at hoperand
    have hagain : Pass.accessor b (Item.token t).entry mid = .ok target mid := hb.again hread hoperand
    rw [Item.accessor_entry] at hagain
    exact ih hagain hrest

/-- After some operands the value may be looked up and the accessor read once more. -/
theorem applied_append (accessor : Token) (xs ys : List Token) :
    Item.applied b program (.token accessor :: (xs ++ ys).map Item.token) =
      Item.applied b program (.token accessor :: xs.map Item.token) >>= fun _ =>
        Item.applied b program (.token accessor :: ys.map Item.token) := by
  have happend (address : A) : ((xs ++ ys).map Item.token).forM (Item.apply b program address) =
      (xs.map Item.token).forM (Item.apply b program address) >>= fun _ =>
        (ys.map Item.token).forM (Item.apply b program address) := by
    rw [List.map_append, List.forM_eq_forM, List.forM_append]
  funext s
  simp only [Item.applied, happend, bind_assoc]
  cases haccessor : Item.address b (.token accessor) s with
  | error stop s' => rw [Action.bind_of_error haccessor, Action.bind_of_error haccessor]
  | ok address s' =>
    have hsame : s' = s := by
      rw [← Item.accessor_entry] at haccessor
      exact hb.accessor haccessor
    subst hsame
    rw [Action.bind_of_ok haccessor, Action.bind_of_ok haccessor]
    cases hoperands : (xs.map Item.token).forM (Item.apply b program address) s' with
    | error stop mid => rw [Action.bind_of_error hoperands, Action.bind_of_error hoperands]
    | ok _ mid =>
      obtain ⟨value, hvalue⟩ := hb.resolve address mid
      rw [Action.bind_of_ok hoperands, Action.bind_of_ok hoperands, Action.bind_of_ok hvalue,
        Action.bind_of_ok (hb.again_forM haccessor xs hoperands)]

end Backend.Rereads

theorem exists_forest_waiting {tokens : List Token} (h : ∀ t ∈ tokens, t.isPlain = true) :
    ∃ forest : Forest, forest.tokens = tokens ∧ ∀ {σ V A : Type} (b : Backend σ V A) (program : Program) (fuel : Nat),
      forest.items b program fuel .applicator = pure (tokens.map Item.token) := by
  induction tokens with
  | nil => exact ⟨.nil, rfl, fun _ _ _ => rfl⟩
  | cons t tokens ih =>
    obtain ⟨plain, htokens⟩ := List.forall_mem_cons.1 h
    obtain ⟨rest, rfl, hrest⟩ := ih htokens
    refine ⟨.token t plain rest, rfl, fun b program fuel => ?_⟩
    rw [Forest.items, hrest]
    rfl

/-! ## Applicators in two parts -/

section
variable {before after xs ys : List Token} {accessor : Token}

/-- Where nothing is kept of it, an applicator is interchangeable with its parts. -/
theorem interchangeable_applicatorOn (haccessor : accessor.isPlain = true) (hxs : ∀ t ∈ xs, t.isPlain = true)
    (hys : ∀ t ∈ ys, t.isPlain = true) (hbefore : Unheld before)
    (hcloses : Closes [] (before ++ (applicatorOn accessor (xs ++ ys) ++ after))) :
    Interchangeable (before ++ (applicatorOn accessor (xs ++ ys) ++ after))
      (before ++ (applicatorOn accessor xs ++ (applicatorOn accessor ys ++ after))) := by
  have hplain : ∀ {tokens : List Token}, (∀ t ∈ tokens, t.isPlain = true) → ∀ t ∈ accessor :: tokens, t.isPlain = true :=
    fun htokens => List.forall_mem_cons.2 ⟨haccessor, htokens⟩
  obtain ⟨whole, hwhole, hwholeItems⟩ := exists_forest_waiting (hplain (List.forall_mem_append.2 ⟨hxs, hys⟩))
  obtain ⟨first, hfirst, hfirstItems⟩ := exists_forest_waiting (hplain hxs)
  obtain ⟨second, hsecond, hsecondItems⟩ := exists_forest_waiting (hplain hys)
  have hjoined : applicatorOn accessor (xs ++ ys) = (Forest.applicator whole .nil).tokens := by
    rw [applicatorOn, ← hwhole]
    rfl
  have hsplit : applicatorOn accessor xs ++ (applicatorOn accessor ys ++ after) =
      (Forest.applicator first (.applicator second .nil)).tokens ++ after := by
    rw [applicatorOn, applicatorOn, ← hfirst, ← hsecond, Forest.tokens_applicator, Forest.tokens_applicator, List.append_assoc,
      List.append_assoc]
    rfl
  rw [hjoined] at hcloses ⊢
  rw [hsplit]
  refine interchangeable_of_unheld hbefore hcloses fun b program hb fuel place hplace => ?_
  cases place with
  | applicator => exact absurd rfl hplace
  | top =>
    simp only [Forest.items, hwholeItems, hfirstItems, hsecondItems, pure_bind, List.map_cons, hb.applied_append, bind_assoc]
    rfl
  | loop address =>
    simp only [Forest.items, hwholeItems, hfirstItems, hsecondItems, pure_bind, List.map_cons, hb.applied_append, bind_assoc]
    rfl

/-- An applicator whose items are tokens may be closed between two operands and opened again on the same cell, where it stands in no
bracket or in a conditional behind its accessor. Runs, evaluations, the lines of the body in C and the whole text are what they were. -/
theorem applicator_split (haccessor : accessor.isPlain = true) (hxs : ∀ t ∈ xs, t.isPlain = true) (hys : ∀ t ∈ ys, t.isPlain = true)
    (hbefore : Unheld before) (hnested : checkBrackets (before ++ (applicatorOn accessor (xs ++ ys) ++ after)) = .ok ())
    (hfree : .opening .definition ∉ before ++ (applicatorOn accessor (xs ++ ys) ++ after)) (limits : Limits) (program : Program)
    (name : String) :
    let joined := before ++ (applicatorOn accessor (xs ++ ys) ++ after)
    let split := before ++ (applicatorOn accessor xs ++ (applicatorOn accessor ys ++ after))
    let withJoined := program.set name joined
    let withSplit := program.set name split
    (∀ machine : Machine, limits.dataSize ≤ machine.memory.size → ∀ r, ¬Exhausted r →
      ((∃ fuel, Machine.run limits withJoined fuel machine = r) ↔ ∃ fuel, Machine.run limits withSplit fuel machine = r) ∧
      ((∃ fuel, Machine.passBody limits withJoined fuel joined machine = r) ↔
        ∃ fuel, Machine.passBody limits withSplit fuel split machine = r)) ∧
    (∀ inApplication, CProgram.linesOf limits withJoined inApplication joined =
      CProgram.linesOf limits withSplit inApplication split) ∧
    CProgram.ofProgram limits withJoined = CProgram.ofProgram limits withSplit := by
  intro joined split withJoined withSplit
  have hbodies : Interchangeable joined split :=
    interchangeable_applicatorOn haccessor hxs hys hbefore (closes_of_checkBrackets hnested hfree)
  have hprograms : withJoined.Interchangeable withSplit := .set program name hbodies
  refine ⟨fun machine hroom r hends => ⟨?_, ?_⟩, fun inApplication => ?_, ?_⟩
  · exact Machine.run_interchanged hroom hprograms hends
  · exact Machine.passBody_interchanged hroom hprograms hbodies hends
  · exact CProgram.linesOf_interchanged hprograms hbodies inApplication
  · exact CProgram.ofProgram_interchanged hprograms

end

/-- The application `($[$-.])` counts its cell down and prints it, and so does `($[$-][$.])`. -/
theorem applicator_split_of_countdown :
    let before : List Token := [.opening .conditional, .parameter]
    let after : List Token := [.closing .conditional]
    let xs : List Token := [.builtin .decrement]
    let ys : List Token := [.builtin .output]
    let joined := before ++ (applicatorOn .parameter (xs ++ ys) ++ after)
    let split := before ++ (applicatorOn .parameter xs ++ (applicatorOn .parameter ys ++ after))
    let program := Program.ofEntry [.opening .applicator, .literal 1, .literal 3, .identifier "f", .closing .applicator]
    let machine : Machine := { memory := .zeroed 2 }
    let r := Machine.run ⟨2, 1⟩ (program.set "f" joined) 30 machine
    Unheld before ∧ checkBrackets joined = .ok () ∧ (Machine.after r).streams.output = [2, 1, 0] ∧
      (∃ fuel, Machine.run ⟨2, 1⟩ (program.set "f" split) fuel machine = r) ∧
      CProgram.linesOf ⟨2, 1⟩ (program.set "f" joined) true joined = CProgram.linesOf ⟨2, 1⟩ (program.set "f" split) true split := by
  intro before after xs ys joined split program machine r
  have hitems : WellNested false [.parameter] := .plain rfl .nil
  have hbefore : Unheld ([] ++ .opening .conditional :: [.parameter]) := .behindAccessor hitems (List.cons_ne_nil _ _)
  obtain ⟨hruns, hlines, -⟩ := applicator_split rfl (by decide : ∀ t ∈ xs, t.isPlain = true) (by decide : ∀ t ∈ ys, t.isPlain = true)
    hbefore (rfl : checkBrackets joined = .ok ()) (by decide : .opening .definition ∉ joined) ⟨2, 1⟩ program "f"
  have hends : ¬Exhausted r := by
    rw [Machine.exhausted_iff_resultOf]
    decide +kernel
  exact ⟨hbefore, rfl, by decide +kernel, (hruns machine (Nat.le_refl 2) r hends).1.1 ⟨30, rfl⟩, hlines true⟩

end Bracketry
