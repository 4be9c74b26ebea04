import Bracketry.Proofs.Machine.Replacing
import Bracketry.Proofs.Termination

/-!
# Interchangeable bodies in C

Interchangeable bodies are written in the same lines, or both refused for the same reason.

* `Generator.accessor_always` : a token is written as an address wherever it stands, or nowhere;
* `Generator.backend_rereads` : so it may be written once more;
* `generate_interchanged`, `ofProgram_interchanged` : bodies and whole programs.
-/

namespace Bracketry.CProgram

variable {limits : Limits} {program other : Program} {inApplication : Bool} {body body' : List Token}

/-- An address is written or refused for what it is, not for the lines before it. -/
theorem Generator.accessor_always {t : Token} {address : Expr} {generator after : Generator}
    (h : Pass.accessor (Generator.backend limits inApplication) (.pending t) generator = .ok address after) :
    after = generator ∧
      ∀ later, Pass.accessor (Generator.backend limits inApplication) (.pending t) later = .ok address later := by
  cases t with
  | literal value =>
    have haddress : Pass.accessor (Generator.backend limits inApplication) (.pending (.literal value)) =
        (Action.ofExcept (limits.checkAddress value) >>= fun _ => pure (Expr.literal value)) := by
      change (discard (Action.ofExcept (limits.checkAddress value)) : Action Generator Unit) >>= (fun _ => pure (Expr.literal value)) = _
      cases limits.checkAddress value <;> rfl
    rw [haddress] at h ⊢
    cases hcheck : limits.checkAddress value with
    | error error =>
      rw [hcheck] at h
      cases h
    | ok found =>
      rw [hcheck] at h
      obtain ⟨rfl, rfl⟩ := EStateM.Result.ok.inj h
      exact ⟨rfl, fun _ => rfl⟩
  | parameter =>
    cases inApplication with
    | true =>
      obtain ⟨rfl, rfl⟩ := EStateM.Result.ok.inj h
      exact ⟨rfl, fun _ => rfl⟩
    | false => cases h
  | _ => cases h

theorem Generator.backend_rereads (program : Program) : (Generator.backend limits inApplication).Rereads program where
  resolve _ _ := ⟨_, rfl⟩
  accessor h := (accessor_always h).1
  again hread _ := (accessor_always hread).2 _

theorem generate_interchanged (h : program.Interchangeable other) (hbody : Interchangeable body body') (inApplication : Bool) :
    generate limits program inApplication body = generate limits other inApplication body' := by
  have hends : ¬Exhausted (generate limits program inApplication body) := generate_ends inApplication body
  obtain ⟨more, hmore⟩ := exists_evaluate_of_interchangeable hbody (Generator.backend_rereads program) hends
  replace hmore : evaluate (Generator.backend limits inApplication) program more body' {} =
    generate limits program inApplication body := hmore
  have hother : evaluate (Generator.backend limits inApplication) other more body' {} =
      generate limits program inApplication body := by
    have hbelow := evaluate_below_of_isApplication h.isApplication (Generator.backend limits inApplication) more body'
    rw [hbelow.eq_of_not_exhausted (hmore ▸ hends), hmore]
  rw [← hother] at hends ⊢
  exact evaluate_unique _ other hends (generate_ends inApplication body')

theorem linesOf_interchanged (h : program.Interchangeable other) (hbody : Interchangeable body body') (inApplication : Bool) :
    linesOf limits program inApplication body = linesOf limits other inApplication body' := by
  unfold linesOf
  rw [generate_interchanged h hbody]

theorem routinesOf_interchanged (h : program.Interchangeable other) {bodies bodies' : List (String × List Token)}
    (hbodies : List.Forall₂ (fun named named' => named.1 = named'.1 ∧ Interchangeable named.2 named'.2) bodies bodies') :
    Listing.routinesOf limits program bodies = Listing.routinesOf limits other bodies' := by
  induction hbodies with
  | nil => rfl
  | @cons named named' _ _ hnamed _ ih =>
    obtain ⟨name, body⟩ := named
    obtain ⟨name', body'⟩ := named'
    obtain ⟨rfl, hbody⟩ := hnamed
    rw [Listing.routinesOf, Listing.routinesOf, linesOf_interchanged h hbody, ih]

/-- Interchangeable programs are written in one text, or both refused for the same reason. -/
theorem ofProgram_interchanged (h : program.Interchangeable other) : ofProgram limits program = ofProgram limits other := by
  have hroutines : Listing.routinesOf limits program program.applications = Listing.routinesOf limits other other.applications :=
    routinesOf_interchanged h h.applications
  rw [ofProgram_eq_map_text, ofProgram_eq_map_text]
  unfold Listing.ofProgram
  rw [hroutines, linesOf_interchanged h h.entry]

end Bracketry.CProgram
