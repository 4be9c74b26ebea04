import Bracketry.Proofs.Steps

/-!
# Straight passes

A backend that neither skips nor repeats a conditional lets a pass read every token once. Then the pass itself finds out whether
the brackets of the body nest.

* `Action.Gives` : a property of whatever an action can give;
* `Backend.Straight` : no skipping and no going back;
* `openings` : the open brackets on a stack;
* `Pass.hands_straight`, `Pass.step_straight` : one token; `Pass.run_gives`, `closes_of_evaluate` : what a straight pass reads to
  the end closes.
-/

namespace Bracketry

variable {σ V A : Type}

namespace Action
variable {α β : Type}

/-- The values that an action can give have a property. -/
def Gives (x : Action σ α) (Q : α → Prop) : Prop := ∀ s a s', x s = .ok a s' → Q a

theorem gives_any (x : Action σ α) : Gives x fun _ => True := fun _ _ _ _ => trivial

theorem gives_pure {a : α} {Q : α → Prop} (h : Q a) : Gives (pure a : Action σ α) Q := by
  intro s a' s' hpure
  obtain ⟨rfl, -⟩ := EStateM.Result.ok.inj hpure
  exact h

theorem gives_fault (error : Error) (Q : α → Prop) : Gives (fault error : Action σ α) Q := by
  intro s a s' hfault
  cases hfault

theorem gives_bind {x : Action σ α} {f : α → Action σ β} {P : α → Prop} {Q : β → Prop} (hx : Gives x P)
    (hf : ∀ a, P a → Gives (f a) Q) : Gives (x >>= f) Q := by
  intro s b s' h
  obtain ⟨a, mid, ha, hb⟩ := of_bind_eq_ok h
  exact hf a (hx s a mid ha) mid b s' hb

end Action

/-- The backend lets every conditional run, once. -/
structure Backend.Straight (b : Backend σ V A) : Prop where
  testLoop (address : A) : (b.testLoop address).Gives (· = .run)
  exitLoop (address : A) : (b.exitLoop address).Gives (· = .done)

def Entry.bracket? : Entry V A → Option Bracket
  | applicator => some .applicator
  | conditional _ => some .conditional
  | _ => none

/-- The open brackets on a stack, innermost first. -/
def openings (stack : List (Entry V A)) : List Bracket := stack.filterMap Entry.bracket?

theorem openings_append {entries : List (Entry V A)} (h : ∀ entry ∈ entries, entry.isMarker = false) (stack : List (Entry V A)) :
    openings (entries ++ stack) = openings stack := by
  have hnone : entries.filterMap Entry.bracket? = [] := by
    refine List.filterMap_eq_nil_iff.2 fun entry hentry => ?_
    have hmarker := h entry hentry
    cases entry with
    | applicator => cases hmarker
    | conditional accessor => cases hmarker
    | _ => rfl
  rw [openings, List.filterMap_append, hnone]
  rfl

theorem openings_of_takeOperands {operands stack below : List (Entry V A)} (h : takeOperands [] stack = some (operands, below)) :
    openings stack = .applicator :: openings below := by
  obtain ⟨entries, rfl, -, hentries⟩ := eq_append_of_takeOperands h
  exact openings_append hentries _

theorem openings_of_dropOperands {stack below : List (Entry V A)} {accessor : Option A}
    (h : dropOperands stack = some (accessor, below)) : openings stack = .conditional :: openings below := by
  obtain ⟨entries, rfl, hentries⟩ := eq_append_of_dropOperands h
  exact openings_append hentries _

namespace Pass
variable {b : Backend σ V A} {program : Program}

section
variable (hstraight : b.Straight)
include hstraight

theorem hands_straight {pass next : Pass V A} {entry : Entry V A} {s s' : σ} (hentry : entry.isMarker = false)
    (h : Hands b program pass entry s (.ok next s')) : next.rest = pass.rest ∧ openings next.stack = openings pass.stack := by
  cases h with
  | kept => exact ⟨rfl, openings_append (List.forall_mem_singleton.2 hentry) pass.stack⟩
  | dropped => exact ⟨rfl, rfl⟩
  | acted => exact ⟨rfl, rfl⟩
  | bound stack =>
    rw [stack]
    exact ⟨rfl, rfl⟩
  | skipped _ _ test => cases hstraight.testLoop _ _ _ _ test

/-- One token moves the pass by one place, and what closes the brackets that are open behind it closes, with it, those before it. -/
theorem step_straight {pass next : Pass V A} {t : Token} {s s' : σ} (h : step b program pass t s = .ok next s') :
    next.rest = pass.rest ∧ (Closes (openings next.stack) pass.rest → Closes (openings pass.stack) (t :: pass.rest)) := by
  cases step_eq_iff.1 h with
  | handed plain hands =>
    obtain ⟨hrest, hopenings⟩ := hands_straight hstraight rfl hands
    rw [hopenings]
    exact ⟨hrest, .plain plain⟩
  | opened => exact ⟨rfl, .opening (by decide)⟩
  | entered => exact ⟨rfl, .opening (by decide)⟩
  | closed taken _ hands =>
    obtain ⟨hrest, hopenings⟩ := hands_straight hstraight rfl hands
    rw [hopenings, openings_of_takeOperands taken]
    exact ⟨hrest, .closing⟩
  | again _ exit => cases hstraight.exitLoop _ _ _ _ exit
  | left dropped _ _ hands =>
    obtain ⟨hrest, hopenings⟩ := hands_straight hstraight rfl hands
    rw [hopenings, openings_of_dropOperands dropped]
    exact ⟨hrest, .closing⟩

omit hstraight in
theorem finish_gives (pass : Pass V A) : (finish b pass).Gives fun _ => openings pass.stack = [] := by
  unfold finish
  split
  · next hempty =>
    refine Action.gives_pure ?_
    rw [List.isEmpty_iff.1 (Bool.and_eq_true_iff.1 hempty).1]
    rfl
  · exact Action.gives_fault _ _

theorem run_gives (fuel : Nat) (pass : Pass V A) :
    (run b program fuel pass).Gives fun _ => Closes (openings pass.stack) pass.rest := by
  have hfinish : ∀ pass : Pass V A, (finish b pass).Gives fun _ => Closes (openings pass.stack) [] := by
    intro pass s a s' h
    rw [finish_gives pass s a s' h]
    exact .nil
  induction fuel generalizing pass with
  | zero =>
    obtain ⟨tokens, stack, loops⟩ := pass
    cases tokens with
    | nil => exact hfinish ⟨[], stack, loops⟩
    | cons t tokens => exact fun _ _ _ h => by cases h
  | succ fuel ih =>
    obtain ⟨tokens, stack, loops⟩ := pass
    cases tokens with
    | nil => exact hfinish ⟨[], stack, loops⟩
    | cons t tokens =>
      intro s a s' h
      obtain ⟨next, mid, hstep, hnext⟩ := Action.of_bind_eq_ok h
      obtain ⟨hrest, hcloses⟩ := step_straight hstraight hstep
      exact hcloses (hrest ▸ ih next mid a s' hnext)

end

end Pass

/-- A body that a straight pass evaluates to the end closes. -/
theorem closes_of_evaluate {b : Backend σ V A} (hstraight : b.Straight) {program : Program} {fuel : Nat}
    {body : List Token} {s s' : σ} (h : evaluate b program fuel body s = .ok () s') : Closes [] body :=
  Pass.run_gives hstraight fuel { rest := body } s () s' h

end Bracketry
