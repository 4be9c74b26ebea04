import Bracketry.Proofs.Steps

/-!
# A number in place of the argument

A body in which a number stands wherever its argument stood does what the body does on a backend whose argument is that number: the
argument is asked for where the number is, be it an accessor or an operand. Only the errors that show tokens tell the two apart.

* `Token.substitute`, `Entry.substitute`, `Pass.substitute` : the number in place of the argument;
* `Backend.withArgument` : the backend whose argument is the number;
* `Pass.accessor_substitute`, `Pass.applyToken_substitute`, `Pass.applied_substitute` : tokens that act on a cell do the same;
* `Pass.hands_substitute`, `Pass.steps_substitute` : so does one token; `evaluate_substitute` : and so does a whole body, as far as it
  ends well.
-/

namespace Bracketry

/-- The number in place of the argument. -/
def Token.substitute (value : Int64) : Token → Token
  | parameter => literal value
  | token => token

def Entry.substitute {V A : Type} (value : Int64) : Entry V A → Entry V A
  | pending token => pending (token.substitute value)
  | entry => entry

def Backend.withArgument {σ V A : Type} (b : Backend σ V A) (value : Int64) : Backend σ V A :=
  { b with parameter := b.literal value }

variable {σ V A : Type}

/-! ## The stack -/

section
variable (value : Int64)

def Pass.substitute (pass : Pass V A) : Pass V A :=
  ⟨pass.rest.map (Token.substitute value), pass.stack.map (Entry.substitute value),
    pass.loops.map (List.map (Token.substitute value))⟩

theorem Pass.innermost?_substitute (pass : Pass V A) :
    (pass.substitute value).innermost? = pass.innermost?.map (Entry.substitute value) := by
  obtain ⟨rest, stack, loops⟩ := pass
  cases stack with
  | nil => rfl
  | cons entry stack => cases entry <;> rfl

theorem takeOperands_substitute (operands stack : List (Entry V A)) :
    takeOperands (operands.map (Entry.substitute value)) (stack.map (Entry.substitute value)) =
      (takeOperands operands stack).map (Prod.map (List.map (Entry.substitute value)) (List.map (Entry.substitute value))) := by
  induction stack generalizing operands with
  | nil => rfl
  | cons entry stack ih =>
    cases entry with
    | applicator => rfl
    | conditional accessor => rfl
    | pending token => exact ih (.pending token :: operands)
    | resolved v => exact ih (.resolved v :: operands)
    | void => exact ih (.void :: operands)

theorem dropOperands_substitute (stack : List (Entry V A)) :
    dropOperands (stack.map (Entry.substitute value)) =
      (dropOperands stack).map (Prod.map id (List.map (Entry.substitute value))) := by
  induction stack with
  | nil => rfl
  | cons entry stack ih =>
    cases entry with
    | applicator => rfl
    | conditional accessor => rfl
    | _ => exact ih

theorem skipBody_substitute (depth : Nat) (tokens : List Token) :
    skipBody depth (tokens.map (Token.substitute value)) = (skipBody depth tokens).map (List.map (Token.substitute value)) := by
  induction tokens generalizing depth with
  | nil => rfl
  | cons token tokens ih =>
    cases token with
    | opening kind =>
      cases kind with
      | conditional => exact ih (depth + 1)
      | _ => cases depth <;> exact ih _
    | closing kind =>
      cases kind with
      | conditional =>
        cases depth with
        | zero => rfl
        | succ depth => exact ih depth
      | _ => cases depth <;> exact ih _
    | _ => cases depth <;> exact ih _

end

namespace Pass
variable {b : Backend σ V A} {program : Program} {value : Int64}

/-! ## Tokens that act on a cell -/

theorem accessor_substitute (entry : Entry V A) :
    accessor b (entry.substitute value) = accessor (b.withArgument value) entry := by
  cases entry with
  | pending token => cases token <;> rfl
  | _ => rfl

theorem applyToken_substitute (address : A) (token : Token) :
    applyToken b program address (token.substitute value) = applyToken (b.withArgument value) program address token := by
  cases token <;> rfl

theorem applyOperand_substitute (address : A) (entry : Entry V A) :
    applyOperand b program address (entry.substitute value) = applyOperand (b.withArgument value) program address entry := by
  cases entry with
  | pending token => exact applyToken_substitute address token
  | _ => rfl

theorem applyOperands_substitute (address : A) (entries : List (Entry V A)) :
    (entries.map (Entry.substitute value)).forM (applyOperand b program address) =
      entries.forM (applyOperand (b.withArgument value) program address) := by
  induction entries with
  | nil => rfl
  | cons entry entries ih =>
    change (applyOperand b program address (entry.substitute value) >>= fun _ =>
      (entries.map (Entry.substitute value)).forM (applyOperand b program address)) = _
    rw [applyOperand_substitute, ih]
    rfl

theorem applied_substitute (operands : List (Entry V A)) :
    applied b program (operands.map (Entry.substitute value)) = applied (b.withArgument value) program operands := by
  cases operands with
  | nil => rfl
  | cons first operands =>
    change (accessor b (first.substitute value) >>= fun address =>
      (operands.map (Entry.substitute value)).forM (applyOperand b program address) >>= fun _ => b.resolve address) = _
    simp only [accessor_substitute, applyOperands_substitute]
    rfl

/-! ## One token -/

/-- Where both end well, the first gives the pass over the changed body. -/
abbrev Substituted (value : Int64) : EStateM.Result Stop σ (Pass V A) → EStateM.Result Stop σ (Pass V A) → Prop :=
  Relator.Agreeing Eq fun pass pass' => pass = pass'.substitute value

theorem inside_substitute {pass : Pass V A} {marker : Entry V A} (h : pass.innermost? = some marker) :
    (pass.substitute value).innermost? = some (marker.substitute value) := by
  rw [innermost?_substitute, h]
  rfl

theorem outside_substitute {pass : Pass V A} (h : pass.innermost? = none) : (pass.substitute value).innermost? = none := by
  rw [innermost?_substitute, h]
  rfl

theorem stack_substitute {pass : Pass V A} {entry : Entry V A} {below : List (Entry V A)} (h : pass.stack = entry :: below) :
    (pass.substitute value).stack = entry.substitute value :: below.map (Entry.substitute value) := congrArg (List.map _) h

theorem loops_substitute {pass : Pass V A} {start : List Token} {outer : List (List Token)} (h : pass.loops = start :: outer) :
    (pass.substitute value).loops = start.map (Token.substitute value) :: outer.map (List.map (Token.substitute value)) :=
  congrArg (List.map _) h

theorem taken_substitute {pass : Pass V A} {operands below : List (Entry V A)}
    (h : takeOperands [] pass.stack = some (operands, below)) :
    takeOperands [] (pass.substitute value).stack =
      some (operands.map (Entry.substitute value), below.map (Entry.substitute value)) := by
  refine (takeOperands_substitute value [] pass.stack).trans ?_
  rw [h]
  rfl

theorem dropped_substitute {pass : Pass V A} {accessor : Option A} {below : List (Entry V A)}
    (h : dropOperands pass.stack = some (accessor, below)) :
    dropOperands (pass.substitute value).stack = some (accessor, below.map (Entry.substitute value)) := by
  refine (dropOperands_substitute value pass.stack).trans ?_
  rw [h]
  rfl

theorem hands_substitute {pass : Pass V A} {entry : Entry V A} {s : σ} {r : EStateM.Result Stop σ (Pass V A)}
    (hands : Hands (b.withArgument value) program pass entry s r) :
    ∃ r', Hands b program (pass.substitute value) (entry.substitute value) s r' ∧ Substituted value r' r := by
  have hread : ∀ {entry : Entry V A} {s r}, accessor (b.withArgument value) entry s = r → accessor b (entry.substitute value) s = r :=
    fun h => (congrFun (accessor_substitute _) _).trans h
  have hact : ∀ {address token} {s : σ} {r}, applyToken (b.withArgument value) program address token s = r →
      applyToken b program address (token.substitute value) s = r := fun h => (congrFun (applyToken_substitute _ _) _).trans h
  induction hands with
  | kept inside => exact ⟨_, .kept (inside_substitute inside), rfl, rfl⟩
  | @dropped pass entry s inside spent =>
    have hspent : ∀ token, entry.substitute value ≠ .pending token := by
      cases entry with
      | pending token => exact absurd rfl (spent token)
      | _ => exact nofun
    exact ⟨_, .dropped (inside.imp outside_substitute fun ⟨address, h⟩ => ⟨address, inside_substitute h⟩) hspent, rfl, rfl⟩
  | outside inside => exact ⟨_, .outside (outside_substitute inside), trivial⟩
  | acted inside act => exact ⟨_, .acted (inside_substitute inside) (hact act), rfl, rfl⟩
  | unacted inside act => exact ⟨_, .unacted (inside_substitute inside) (hact act), trivial⟩
  | unread stack read => exact ⟨_, .unread (stack_substitute stack) (hread read), trivial⟩
  | untested stack read test => exact ⟨_, .untested (stack_substitute stack) (hread read) test, trivial⟩
  | bound stack read test => exact ⟨_, .bound (stack_substitute stack) (hread read) test, rfl, rfl⟩
  | @unclosed pass _ _ _ _ _ _ stack read test skip =>
    have hskip : skipBody 0 (pass.substitute value).rest = none := by
      rw [substitute, skipBody_substitute, skip]
      rfl
    exact ⟨_, .unclosed (stack_substitute stack) (hread read) test hskip, trivial⟩
  | @unstarted pass _ _ _ _ _ _ rest stack read test skip loops =>
    have hskip : skipBody 0 (pass.substitute value).rest = some (rest.map (Token.substitute value)) := by
      rw [substitute, skipBody_substitute, skip]
      rfl
    exact ⟨_, .unstarted (stack_substitute stack) (hread read) test hskip (congrArg (List.map _) loops), trivial⟩
  | @skipped pass _ _ _ _ _ _ rest _ _ _ stack read test skip loops _ ih =>
    have hskip : skipBody 0 (pass.substitute value).rest = some (rest.map (Token.substitute value)) := by
      rw [substitute, skipBody_substitute, skip]
      rfl
    obtain ⟨r', hands', hr'⟩ := ih
    exact ⟨r', .skipped (stack_substitute stack) (hread read) test hskip (loops_substitute loops) hands', hr'⟩

theorem steps_substitute {pass : Pass V A} {token : Token} {s : σ} {r : EStateM.Result Stop σ (Pass V A)}
    (steps : Steps (b.withArgument value) program pass token s r) :
    ∃ r', Steps b program (pass.substitute value) (token.substitute value) s r' ∧ Substituted value r' r := by
  have hact : ∀ {operands : List (Entry V A)} {s r}, applied (b.withArgument value) program operands s = r →
      applied b program (operands.map (Entry.substitute value)) s = r := fun h => (congrFun (applied_substitute _) _).trans h
  cases steps with
  | refused refuses =>
    cases refuses with
    | opening => exact ⟨_, .refused .opening, trivial⟩
    | closing => exact ⟨_, .refused .closing, trivial⟩
    | applicator taken =>
      refine ⟨_, .refused (.applicator ?_), trivial⟩
      refine (takeOperands_substitute value [] pass.stack).trans ?_
      rw [taken]
      rfl
    | conditional dropped =>
      refine ⟨_, .refused (.conditional ?_), trivial⟩
      refine (dropOperands_substitute value pass.stack).trans ?_
      rw [dropped]
      rfl
    | unbound dropped => exact ⟨_, .refused (.unbound (dropped_substitute dropped)), trivial⟩
  | handed plain hands =>
    obtain ⟨r', hands', hr'⟩ := hands_substitute hands
    refine ⟨r', .handed ?_ hands', hr'⟩
    cases token <;> exact plain
  | opened => exact ⟨_, .opened, rfl, rfl⟩
  | entered enter => exact ⟨_, .entered enter, rfl, rfl⟩
  | unentered enter => exact ⟨_, .unentered enter, trivial⟩
  | closed taken act hands =>
    obtain ⟨r', hands', hr'⟩ := hands_substitute hands
    exact ⟨r', .closed (taken_substitute taken) (hact act) hands', hr'⟩
  | unacted taken act => exact ⟨_, .unacted (taken_substitute taken) (hact act), trivial⟩
  | again dropped exit loops => exact ⟨_, .again (dropped_substitute dropped) exit (loops_substitute loops), rfl, rfl⟩
  | left dropped exit loops hands =>
    obtain ⟨r', hands', hr'⟩ := hands_substitute hands
    exact ⟨r', .left (dropped_substitute dropped) exit (loops_substitute loops) hands', hr'⟩
  | unexited dropped exit => exact ⟨_, .unexited (dropped_substitute dropped) exit, trivial⟩
  | unstarted dropped exit loops =>
    exact ⟨_, .unstarted (dropped_substitute dropped) exit (congrArg (List.map _) loops), trivial⟩

theorem step_substitute (pass : Pass V A) (token : Token) :
    (Relator.agreeing Eq).Rel (fun pass pass' => pass = pass'.substitute value)
      (step b program (pass.substitute value) (token.substitute value)) (step (b.withArgument value) program pass token) := by
  rintro s _ rfl
  obtain ⟨r', hsteps, hr'⟩ := steps_substitute (steps_step (b := b.withArgument value) pass token s)
  rw [step_of_steps hsteps]
  exact hr'

/-! ## Whole bodies -/

theorem finish_substitute (pass : Pass V A) :
    (Relator.agreeing Eq).Rel Eq (finish b (pass.substitute value)) (finish (b.withArgument value) pass) := by
  have hempty : ((pass.substitute value).stack.isEmpty && (pass.substitute value).loops.isEmpty) =
      (pass.stack.isEmpty && pass.loops.isEmpty) := by
    simp [substitute]
  unfold finish
  rw [hempty]
  split
  · exact Relator.agreeing_refl _
  · exact Relator.agreeing_fault _ _

theorem run_substitute (fuel : Nat) (pass : Pass V A) :
    (Relator.agreeing Eq).Rel Eq (run b program fuel (pass.substitute value)) (run (b.withArgument value) program fuel pass) := by
  induction fuel generalizing pass with
  | zero =>
    obtain ⟨rest, stack, loops⟩ := pass
    cases rest with
    | nil => exact finish_substitute ⟨[], stack, loops⟩
    | cons token rest => exact (Relator.agreeing Eq).exhausted Eq
  | succ fuel ih =>
    obtain ⟨rest, stack, loops⟩ := pass
    cases rest with
    | nil => exact finish_substitute ⟨[], stack, loops⟩
    | cons token rest =>
      refine (Relator.agreeing Eq).bind (step_substitute ⟨rest, stack, loops⟩ token) ?_
      rintro _ next rfl
      exact ih next

end Pass

/-- A body with a number in place of its argument ends well if and only if the body does where its argument is that number, and then
it leaves the same state. -/
theorem evaluate_substitute (b : Backend σ V A) (program : Program) (value : Int64) (fuel : Nat) (body : List Token) :
    (Relator.agreeing Eq).Rel Eq (evaluate b program fuel (body.map (Token.substitute value)))
      (evaluate (b.withArgument value) program fuel body) :=
  Pass.run_substitute fuel { rest := body }

end Bracketry
