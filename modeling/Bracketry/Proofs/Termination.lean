import Bracketry.Proofs.Bookkeeping
import Bracketry.Proofs.CProgram.Phrases
import Bracketry.Proofs.Machine.Guards
import Bracketry.Proofs.Recording

/-!
# Evaluations that end

A pass goes forward in its body except when a conditional is told to repeat, and then it goes back to a place in the same body. So
there are at most as many tokens to read as there are repetitions and one more, times the length of the body.

* `repeats` : how often a conditional was told to repeat;
* `Pass.step_advances` : a token moves the pass forward or is such a repetition;
* `Pass.run_ends_of_repeats` : hence a pass with few repetitions ends, and `Pass.run_ends_of_unlooped` one over a body without
  conditionals;
* `Machine.passBody_ends_of_unlooped` : so does a body that calls such bodies, since the limit ends the calls;
* `evaluate_terminates` : evaluations, translations and runs.
-/

namespace Bracketry

variable {σ V A : Type}

def Asked.isRepeat : Asked V A → Bool
  | exitLoop _ (some .again) => true
  | _ => false

def repeats (asked : List (Asked V A)) : Nat := asked.countP Asked.isRepeat

theorem repeats_le_of_suffix {earlier later : List (Asked V A)} (h : earlier <:+ later) : repeats earlier ≤ repeats later :=
  h.sublist.countP_le

theorem Action.not_exhausted_of_ends {α : Type} {x : Action σ α} {Q : α → Prop} (h : x.Ends (· ≠ .outOfFuel) Q) (s : σ) :
    ¬Exhausted (x s) := by
  have hresult := h s
  cases hx : x s with
  | ok a after => exact id
  | error stop after =>
    rw [hx] at hresult
    cases stop with
    | fault error => exact id
    | outOfFuel => exact absurd rfl hresult

theorem Action.ends_of_not_exhausted {α : Type} {x : Action σ α} (h : ∀ s, ¬Exhausted (x s)) :
    x.Ends (· ≠ .outOfFuel) fun _ => True := by
  intro s
  have hresult := h s
  cases hx : x s with
  | ok a after => trivial
  | error stop after =>
    rw [hx] at hresult
    rintro rfl
    exact hresult trivial

namespace Recorded

theorem exhausted_forget {α : Type} {r : EStateM.Result Stop (Recorded σ V A) α} : Exhausted (forget r) ↔ Exhausted r := by
  cases r with
  | ok a recorded => exact Iff.rfl
  | error stop recorded => cases stop <;> exact Iff.rfl

theorem note_ends {α : Type} {P : Stop → Prop} {x : Action σ α} (h : x.Ends P fun _ => True)
    (entry : Option α → Asked V A) : (note entry x).Ends P fun _ => True := by
  rintro ⟨state, asked⟩
  have hresult := h state
  unfold note
  dsimp only
  cases hx : x state with
  | ok a after => trivial
  | error stop after =>
    rw [hx] at hresult
    exact hresult

theorem recorded_stopsOnly {b : Backend σ V A} {P : Stop → Prop} (h : b.StopsOnly P) : b.recorded.StopsOnly P where
  literal value := note_ends (h.literal value) _
  parameter := note_ends h.parameter _
  resolveAccessor value := note_ends (h.resolveAccessor value) _
  applyBuiltin address op := note_ends (h.applyBuiltin address op) fun _ => .applyBuiltin address op
  assign address value := note_ends (h.assign address value) fun _ => .assign address value
  call name address := note_ends (h.call name address) fun _ => .call name address
  resolve address := note_ends (h.resolve address) _
  enterLoop := note_ends h.enterLoop fun _ => .enterLoop
  testLoop address := note_ends (h.testLoop address) _
  exitLoop address := note_ends (h.exitLoop address) _

end Recorded

/-! ## One token -/

namespace Pass
variable {b : Backend σ V A} {program : Program}

theorem rest_of_hands {pass : Pass V A} {entry : Entry V A} {s : σ} {r : EStateM.Result Stop σ (Pass V A)}
    (hands : Hands b program pass entry s r) : Outcome (fun _ => True) (fun next => next.rest <:+ pass.rest) r := by
  induction hands with
  | kept => exact List.suffix_rfl
  | dropped => exact List.suffix_rfl
  | acted => exact List.suffix_rfl
  | bound => exact List.suffix_rfl
  | skipped _ _ _ skip _ _ ih => exact ih.mono (fun _ => id) fun next hnext => hnext.trans (skipBody_suffix skip)
  | _ => trivial

/-- The pass goes forward in its body, or it goes back because a conditional was told to repeat. -/
def Advances (pass : Pass V A) (asked : List (Asked V A)) (next : Pass V A) (later : List (Asked V A)) : Prop :=
  next.rest <:+ pass.rest ∨ next.rest ∈ pass.loops ∧ repeats asked < repeats later

theorem step_advances {pass next : Pass V A} {token : Token} {recorded after : Recorded σ V A}
    (h : step b.recorded program pass token recorded = .ok next after) : pass.Advances recorded.asked next after.asked := by
  cases step_eq_iff.1 h with
  | handed _ hands => exact .inl (rest_of_hands hands)
  | opened => exact .inl List.suffix_rfl
  | entered => exact .inl List.suffix_rfl
  | closed _ _ hands => exact .inl (rest_of_hands hands)
  | again _ exit loops =>
    refine .inr ⟨loops ▸ List.mem_cons_self, ?_⟩
    rw [Recorded.asked_of_note exit, repeats, repeats, List.countP_cons_of_pos rfl]
    exact Nat.lt_succ_self _
  | left _ _ _ hands => exact .inl (rest_of_hands hands)

/-! ## A whole pass -/

section
variable (hb : b.StopsOnly (· ≠ .outOfFuel)) {body : List Token}
include hb

theorem not_exhausted_of_step {fuel : Nat} {token : Token} {tokens : List Token} {stack : List (Entry V A)}
    {loops : List (List Token)} {recorded : Recorded σ V A} (htidy : Tidy body (⟨token :: tokens, stack, loops⟩ : Pass V A))
    (hnext : ∀ next after, step b.recorded program ⟨tokens, stack, loops⟩ token recorded = .ok next after →
      next.Tidy body → Moves ⟨tokens, stack, loops⟩ token next → Advances ⟨tokens, stack, loops⟩ recorded.asked next after.asked →
      ¬Exhausted (run b.recorded program fuel next after)) :
    ¬Exhausted (run b.recorded program (fuel + 1) ⟨token :: tokens, stack, loops⟩ recorded) := by
  change ¬Exhausted ((step b.recorded program ⟨tokens, stack, loops⟩ token >>= run b.recorded program fuel) recorded)
  have hends : (step b.recorded program ⟨tokens, stack, loops⟩ token).Ends (· ≠ .outOfFuel) fun _ => True :=
    step_ends (Recorded.recorded_stopsOnly hb) (fun _ _ => Stop.noConfusion) (fun _ => Stop.noConfusion) token
  replace hends := Action.not_exhausted_of_ends hends recorded
  cases hstep : step b.recorded program ⟨tokens, stack, loops⟩ token recorded with
  | ok next after =>
    rw [Action.bind_of_ok hstep]
    obtain ⟨hnextTidy, hmoves⟩ := tidy_of_step htidy rfl hstep
    exact hnext next after hstep hnextTidy hmoves (step_advances hstep)
  | error stop after =>
    rw [Action.bind_of_error hstep]
    rw [hstep] at hends
    cases stop <;> exact hends

omit hb in
theorem not_exhausted_finish (pass : Pass V A) (fuel : Nat) (hrest : pass.rest = []) (recorded : Recorded σ V A) :
    ¬Exhausted (run b.recorded program fuel pass recorded) := by
  obtain ⟨rest, stack, loops⟩ := pass
  obtain rfl : rest = [] := hrest
  have hfinish : run b.recorded program fuel ⟨[], stack, loops⟩ = finish b.recorded ⟨[], stack, loops⟩ := by cases fuel <;> rfl
  rw [hfinish]
  exact Action.not_exhausted_of_ends (finish_ends (fun _ _ => Stop.noConfusion) _) recorded

/-- A pass ends if there are bounds on how often it is told to repeat. -/
theorem run_ends_of_repeats {most : Nat} (fuel : Nat) {pass : Pass V A} {recorded : Recorded σ V A} (htidy : pass.Tidy body)
    (hmost : ∀ k, repeats (Recorded.left (run b.recorded program k pass recorded)) ≤ most)
    (hfuel : pass.rest.length + (most - repeats recorded.asked) * body.length ≤ fuel) :
    ¬Exhausted (run b.recorded program fuel pass recorded) := by
  -- The tokens to come and, for every repetition to come, a whole body are what is left of the fuel.
  induction fuel generalizing pass recorded with
  | zero => exact not_exhausted_finish pass 0 (List.length_eq_zero_iff.1 (by omega)) recorded
  | succ fuel ih =>
    obtain ⟨rest, stack, loops⟩ := pass
    cases rest with
    | nil => exact not_exhausted_finish _ _ rfl recorded
    | cons token tokens =>
      refine not_exhausted_of_step hb htidy fun next after hstep hnext _ hadvances => ?_
      have hmostNext : ∀ k, repeats (Recorded.left (run b.recorded program k next after)) ≤ most := by
        intro k
        have hlater := hmost (k + 1)
        change repeats (Recorded.left ((step b.recorded program ⟨tokens, stack, loops⟩ token >>= run b.recorded program k)
          recorded)) ≤ most at hlater
        rwa [Action.bind_of_ok hstep] at hlater
      refine ih hnext hmostNext ?_
      rw [List.length_cons] at hfuel
      rcases hadvances with hforward | ⟨hback, hrepeats⟩
      · have hlength := hforward.length_le
        have hgrows : repeats recorded.asked ≤ repeats after.asked := by
          have hsuffix := Recorded.suffix_step b program ⟨tokens, stack, loops⟩ token recorded
          rw [hstep] at hsuffix
          exact repeats_le_of_suffix hsuffix
        have hless := Nat.mul_le_mul_right body.length (Nat.sub_le_sub_left hgrows most)
        change next.rest.length ≤ tokens.length at hlength
        omega
      · have hlast := Nat.le_trans (repeats_le_of_suffix (Recorded.suffix_run 0 next after)) (hmostNext 0)
        have hlength := (htidy.starts next.rest hback).length_le
        have hless : (most - repeats after.asked + 1) * body.length ≤ (most - repeats recorded.asked) * body.length :=
          Nat.mul_le_mul_right body.length (by omega)
        rw [Nat.add_one_mul] at hless
        rw [List.length_cons] at hlength
        omega

theorem run_ends_of_unlooped (hbody : .opening .conditional ∉ body) (fuel : Nat) {pass : Pass V A} {recorded : Recorded σ V A}
    (htidy : pass.Tidy body) (hloops : pass.loops = []) (hfuel : pass.rest.length ≤ fuel) :
    ¬Exhausted (run b.recorded program fuel pass recorded) := by
  induction fuel generalizing pass recorded with
  | zero => exact not_exhausted_finish pass 0 (List.length_eq_zero_iff.1 (by omega)) recorded
  | succ fuel ih =>
    obtain ⟨rest, stack, loops⟩ := pass
    obtain rfl : loops = [] := hloops
    cases rest with
    | nil => exact not_exhausted_finish _ _ rfl recorded
    | cons token tokens =>
      refine not_exhausted_of_step hb htidy fun next after _ hnext hmoves hadvances => ?_
      have htoken : token ≠ .opening .conditional := by
        rintro rfl
        exact hbody (htidy.rest.subset List.mem_cons_self)
      have hnone : next.loops = [] := by
        rw [Moves, if_neg htoken] at hmoves
        exact List.suffix_nil.1 hmoves
      have hforward : next.rest <:+ tokens := hadvances.resolve_right fun hback => List.not_mem_nil hback.1
      exact ih hnext hnone (Nat.le_trans hforward.length_le (Nat.le_of_succ_le_succ hfuel))

end

end Pass

section
variable {b : Backend σ V A} {program : Program} {body : List Token} (hb : b.StopsOnly (· ≠ .outOfFuel))
include hb

theorem evaluate_ends_of_repeats {most : Nat} {s : σ}
    (hmost : ∀ fuel, repeats (Recorded.left (evaluate b.recorded program fuel body { state := s })) ≤ most) :
    ¬Exhausted (evaluate b program ((most + 1) * body.length) body s) := by
  rw [← Recorded.forget_evaluate b program _ body { state := s }, Recorded.exhausted_forget]
  refine Pass.run_ends_of_repeats hb _ (Pass.tidy_first body) hmost ?_
  have hnone : repeats ([] : List (Asked V A)) = 0 := rfl
  rw [hnone, Nat.sub_zero, Nat.add_one_mul]
  exact Nat.le_of_eq (Nat.add_comm _ _)

theorem evaluate_ends_of_unlooped (hbody : .opening .conditional ∉ body) {fuel : Nat} (hfuel : body.length ≤ fuel) (s : σ) :
    ¬Exhausted (evaluate b program fuel body s) := by
  rw [← Recorded.forget_evaluate b program _ body { state := s }, Recorded.exhausted_forget]
  exact Pass.run_ends_of_unlooped hb hbody fuel (Pass.tidy_first body) rfl hfuel

end

/-! ## Calls -/

/-- No body has a conditional, and none has more tokens than that. -/
def Program.Unlooped (program : Program) (longest : Nat) : Prop :=
  ∀ name body, program.body? name = some body → .opening .conditional ∉ body ∧ body.length ≤ longest

theorem Program.exists_unlooped {program : Program} (h : ∀ name body, program.body? name = some body → .opening .conditional ∉ body) :
    ∃ longest, program.Unlooped longest := by
  refine ⟨(program.bodies.flatMap Prod.snd).length, fun name body hbody => ⟨h name body hbody, ?_⟩⟩
  obtain ⟨before, after, hbodies, -⟩ := List.lookup_eq_some_iff.1 hbody
  rw [hbodies, List.flatMap_append, List.flatMap_cons, List.length_append, List.length_append]
  exact Nat.le_trans (Nat.le_add_right _ _) (Nat.le_add_left _ _)

namespace Machine
variable {limits : Limits} {program : Program} {evaluateBody : List Token → Action Machine Unit}

theorem exhausted_of_lastFlush {r : EStateM.Result Stop Machine Unit} (h : Exhausted (lastFlush r)) : Exhausted r := by
  have hflush : ∀ machine, ¬Exhausted (perform Streams.flush machine) :=
    Action.not_exhausted_of_ends (perform_ends (fun _ _ => Stop.noConfusion) Streams.flush)
  cases r with
  | ok _ machine => exact absurd h (hflush machine)
  | error stop machine =>
    cases stop with
    | outOfFuel => exact h
    | fault error =>
      have hmachine := hflush machine
      unfold lastFlush at h
      cases hresult : perform Streams.flush machine with
      | ok _ flushed =>
        simp only [hresult] at h
        exact h
      | error stop flushed =>
        simp only [hresult] at h hmachine
        exact absurd h (by cases stop <;> exact hmachine)

/-! ## One body and what it calls -/

variable (limits program evaluateBody) in
/-- The operations of a body that calls only while these applications are active. -/
def backendFrom (frames : Array Nat) : Backend Machine Int64 Nat :=
  { backendWith limits program evaluateBody with
    call := fun name address machine =>
      if machine.frames = frames then call limits program evaluateBody name address machine
      else .error (.fault (.unknownToken name)) machine }

/-- A body leaves the active applications as they are, so it makes all its calls from there. -/
theorem evaluate_backendFrom (hbody : ∀ body, (Relator.leaving Machine.frames).Rel Eq (evaluateBody body) (evaluateBody body))
    (fuel : Nat) (body : List Token) (machine : Machine) :
    evaluate (backendWith limits program evaluateBody) program fuel body machine =
      evaluate (backendFrom limits program evaluateBody machine.frames) program fuel body machine := by
  -- Both sides are looked at from machines with these applications active only.
  let rel := Relator.keeping fun mid : Machine => mid.frames = machine.frames
  have hfaults : rel.KeepsFaults := Relator.abreast_keepsFaults _
  have hleaving : (backendWith limits program evaluateBody).Matches (.leaving frames) Eq (fun address address' =>
      address = address' ∧ True) program (backendWith limits program evaluateBody) program := frames_respects.backendWith hbody
  have hmatches := hleaving.imp (Relator.keeping_of_leaving machine.frames)
  have hcalls : ∀ name address, rel.Rel Eq (call limits program evaluateBody name address)
      ((backendFrom limits program evaluateBody machine.frames).call name address) := by
    rintro name address mid _ ⟨rfl, hmid⟩
    have hfrom : (backendFrom limits program evaluateBody machine.frames).call name address mid =
        call limits program evaluateBody name address mid := if_pos hmid
    rw [hfrom]
    exact Relator.keeping_of_leaving machine.frames (call_leaving hbody name address) mid mid ⟨rfl, hmid⟩
  have hfrom : (backendWith limits program evaluateBody).Matches rel Eq (fun address address' => address = address' ∧ True) program
      (backendFrom limits program evaluateBody machine.frames) program :=
    { hmatches with named := fun name a a' haddress => haddress.1 ▸ Pass.identifier_matches hfaults (hcalls name a) }
  exact Relator.eq_of_keeping (Pass.evaluate_matches hfrom hfaults fuel body) rfl

/-- A body without conditionals ends if the bodies that it may call do. -/
theorem evaluate_ends_of_calls (hbody : ∀ body, (Relator.leaving Machine.frames).Rel Eq (evaluateBody body) (evaluateBody body))
    {machine : Machine} (hcalls : machine.frames.size < limits.maxCallDepth → ∀ name called, program.body? name = some called →
      ∀ (mid : Machine) address, mid.frames = machine.frames.push address → ¬Exhausted (evaluateBody called mid))
    {body : List Token} (hunlooped : .opening .conditional ∉ body) {fuel : Nat} (hfuel : body.length ≤ fuel) :
    ¬Exhausted (evaluate (backendWith limits program evaluateBody) program fuel body machine) := by
  rw [evaluate_backendFrom hbody]
  have hcall : ∀ name address, ((backendFrom limits program evaluateBody machine.frames).call name address).Ends (· ≠ .outOfFuel)
      fun _ => True := by
    intro name address
    refine Action.ends_of_not_exhausted fun mid => ?_
    change ¬Exhausted (if mid.frames = machine.frames then call limits program evaluateBody name address mid
      else .error (.fault (.unknownToken name)) mid)
    split
    · next hmid =>
      rw [call_eq, hmid]
      split
      · exact id
      · next hroom =>
        cases hbody? : program.body? name with
        | none => exact id
        | some called =>
          simp only [inFrame_eq]
          intro hexhausted
          exact hcalls (Nat.lt_of_not_le hroom) name called hbody? _ address (congrArg (·.push address) hmid)
            (exhausted_of_leaveFrame hexhausted)
    · exact id
  exact evaluate_ends_of_unlooped (backendWith_stopsOnly (fun _ _ => nofun) limits program evaluateBody hcall) hunlooped hfuel machine

theorem passBody_ends_of_unlooped {longest : Nat} (hprogram : program.Unlooped longest) {room : Nat} {machine : Machine}
    (hroom : limits.maxCallDepth ≤ machine.frames.size + room) {body : List Token} (hbody : .opening .conditional ∉ body)
    (hlength : body.length ≤ longest) {fuel : Nat} (hfuel : longest + room < fuel) :
    ¬Exhausted (passBody limits program fuel body machine) := by
  -- Every call takes one unit of fuel and some of the room; where there is no room left, calls are refused.
  induction room generalizing machine body fuel with
  | zero =>
    obtain ⟨fuel, rfl⟩ : ∃ less, fuel = less + 1 := ⟨fuel - 1, by omega⟩
    rw [passBody, backend_eq]
    refine evaluate_ends_of_calls (frames_respects.passBody fuel) (fun hcalls => ?_) hbody (by omega)
    omega
  | succ room ih =>
    obtain ⟨fuel, rfl⟩ : ∃ less, fuel = less + 1 := ⟨fuel - 1, by omega⟩
    rw [passBody, backend_eq]
    refine evaluate_ends_of_calls (frames_respects.passBody fuel) (fun _ name called hcalled mid address hmid => ?_) hbody (by omega)
    obtain ⟨hcalledUnlooped, hcalledLength⟩ := hprogram name called hcalled
    have hsize : mid.frames.size = machine.frames.size + 1 := by rw [hmid, Array.size_push]
    exact ih (by omega) hcalledUnlooped hcalledLength (by omega)

theorem run_ends_of_unlooped {longest : Nat} (hprogram : program.Unlooped longest) (machine : Machine) :
    ¬Exhausted (run limits program (longest + limits.maxCallDepth) machine) := by
  have hentry : .opening .conditional ∉ program.entry ∧ program.entry.length ≤ longest := by
    unfold Program.entry
    cases hbody : program.body? entryName with
    | none => exact ⟨List.not_mem_nil, Nat.zero_le _⟩
    | some body => exact hprogram entryName body hbody
  rw [run_eq]
  intro h
  exact passBody_ends_of_unlooped hprogram (Nat.le_add_left _ _) hentry.1 hentry.2 (Nat.lt_succ_self _) (exhausted_of_lastFlush h)

end Machine

/-! ## Writing in C -/

namespace CProgram
variable {limits : Limits} {program : Program}

theorem generate_ends (inApplication : Bool) (body : List Token) : ¬Exhausted (generate limits program inApplication body) := by
  have hcompletes : Outcome _ _ (generate limits program inApplication body) :=
    Pass.run_completes (Generator.backend_straight limits inApplication) (Generator.backend_stopsOnly fun _ _ => Stop.noConfusion)
      body.length { rest := body } (Nat.le_refl _) {}
  cases hgenerate : generate limits program inApplication body with
  | ok _ generator => exact id
  | error stop generator =>
    rw [hgenerate] at hcompletes
    cases stop with
    | fault error => exact id
    | outOfFuel => exact absurd rfl hcompletes

theorem linesOf_ne_outOfFuel (inApplication : Bool) (body : List Token) :
    linesOf limits program inApplication body ≠ .error .outOfFuel := by
  have hends : ¬Exhausted (generate limits program inApplication body) := generate_ends inApplication body
  unfold linesOf
  cases hgenerate : generate limits program inApplication body with
  | ok _ generator => exact nofun
  | error stop generator =>
    rw [hgenerate] at hends
    rintro ⟨⟩
    exact hends trivial

theorem ofProgram_ne_outOfFuel : ofProgram limits program ≠ .error .outOfFuel := by
  intro h
  rcases bind_eq_error_iff.1 h with hroutines | ⟨routines, -, h⟩
  · obtain ⟨before, ⟨name, body⟩, after, -, -, hroutine⟩ := mapM_eq_error_iff.1 hroutines
    exact linesOf_ne_outOfFuel true body (bind_pure_eq_error_iff.1 hroutine)
  · exact linesOf_ne_outOfFuel false program.entry (bind_pure_eq_error_iff.1 h)

end CProgram

/-- An evaluation ends, whatever its body, if its operations do and it is told to repeat conditionals a bounded number of times, no
matter how long it goes on; so a program is always written in C or refused. A run ends if no body has a conditional, whatever the
bodies call, and the same fuel is enough for every machine. -/
theorem evaluate_terminates :
    (∀ {σ V A : Type} (b : Backend σ V A) (program : Program) (body : List Token) (s : σ) (most : Nat),
      b.StopsOnly (· ≠ .outOfFuel) →
      (∀ fuel, repeats (Recorded.left (evaluate b.recorded program fuel body { state := s })) ≤ most) →
      ¬Exhausted (evaluate b program ((most + 1) * body.length) body s)) ∧
    (∀ limits program, CProgram.ofProgram limits program ≠ .error .outOfFuel) ∧
    ∀ limits program, (∀ name body, program.body? name = some body → .opening .conditional ∉ body) →
      ∃ fuel, ∀ machine, ¬Exhausted (Machine.run limits program fuel machine) := by
  refine ⟨fun b program body s most hb hmost => evaluate_ends_of_repeats hb hmost,
    fun limits program => CProgram.ofProgram_ne_outOfFuel, fun limits program hprogram => ?_⟩
  obtain ⟨longest, hlongest⟩ := Program.exists_unlooped hprogram
  exact ⟨_, Machine.run_ends_of_unlooped hlongest⟩

/-- A conditional that is told to repeat once, in a body whose last bracket is not closed, and two applications that call each
other. -/
theorem evaluate_terminates_of_mutual :
    let body : List Token := [.opening .conditional, .literal 0, .closing .conditional, .opening .applicator]
    let program : Program := ⟨[("main", [.opening .applicator, .literal 0, .identifier "a", .closing .applicator]),
      ("a", [.opening .applicator, .parameter, .identifier "b", .closing .applicator]),
      ("b", [.opening .applicator, .parameter, .identifier "a", .closing .applicator])]⟩
    ¬Exhausted (evaluate Trace.backend program 8 body { exits := [true] }) ∧
      ∃ fuel, ∀ machine, ¬Exhausted (Machine.run {} program fuel machine) := by
  intro body program
  obtain ⟨hevaluation, -, hrun⟩ := evaluate_terminates
  have hends : Trace.backend.StopsOnly (· ≠ .outOfFuel) :=
    { literal := fun _ _ => trivial, parameter := fun _ => trivial, resolveAccessor := fun _ _ => trivial,
      applyBuiltin := fun _ _ _ => trivial, assign := fun _ _ _ => trivial, call := fun _ _ _ => trivial,
      resolve := fun _ _ => trivial, enterLoop := fun _ => trivial, testLoop := fun _ _ => trivial,
      exitLoop := fun _ _ => trivial }
  refine ⟨hevaluation Trace.backend program body { exits := [true] } 1 hends fun fuel => ?_, hrun {} program ?_⟩
  · rcases fuel with _ | _ | _ | _ | _ | _ | _ | _ <;> exact Nat.le_of_ble_eq_true rfl
  · intro name called hcalled
    obtain ⟨before, after, hbodies, -⟩ := List.lookup_eq_some_iff.1 hcalled
    have hunlooped : ∀ named ∈ program.bodies, .opening .conditional ∉ named.2 := by decide
    exact hunlooped (name, called) (hbodies ▸ List.mem_append_right _ List.mem_cons_self)

end Bracketry
