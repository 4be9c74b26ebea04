import Bracketry.Eval.Trace
import Bracketry.Proofs.Stops

/-!
# The bookkeeping of a pass

A pass keeps its open brackets on a stack and, apart from it, the places that its conditionals go back to. Both tell the same story,
whatever the body and whatever the backend: nested or not, with closing brackets of any kind at any time.

* `Pass.Reaches` : the moments of a pass at which it is about to read a token;
* `Pass.Opened` : the round bracket that an open conditional began with;
* `Held` : whatever waits on the stack waits for an applicator;
* `Pass.Tidy` : the invariant; `Pass.step_tidy` is the statement for one token;
* `Pass.bookkeeping_of_reaches` : at every moment the bookkeeping is in order, and no guard ever finds that it is not.
-/

namespace Bracketry

variable {σ V A : Type}

/-! ## Moments of a pass -/

/-- Reading token after token from a first moment on, the pass comes to another. -/
inductive Pass.Reaches (b : Backend σ V A) (program : Program) (first : Pass V A) (s : σ) : Pass V A → σ → Prop where
  | first : Reaches b program first s first s
  | next {pass next : Pass V A} {s' s'' : σ} {token : Token} {tokens : List Token}
      (reached : Reaches b program first s pass s') (rest : pass.rest = token :: tokens)
      (step : Pass.step b program { pass with rest := tokens } token s' = .ok next s'') : Reaches b program first s next s''

/-- The conditional with `outside` others around it began with the round bracket in front of `start` : when that bracket was read,
so many conditionals were open, and there have been more ever since. -/
inductive Pass.Opened (b : Backend σ V A) (program : Program) (first : Pass V A) (s : σ) (outside : Nat) (start : List Token) :
    Pass V A → σ → Prop where
  | bracket {pass next : Pass V A} {s' s'' : σ} (reached : Pass.Reaches b program first s pass s')
      (rest : pass.rest = .opening .conditional :: start) (around : conditionals pass.stack = outside)
      (step : Pass.step b program { pass with rest := start } (.opening .conditional) s' = .ok next s'') :
      Opened b program first s outside start next s''
  | later {pass next : Pass V A} {s' s'' : σ} {token : Token} {tokens : List Token}
      (opened : Opened b program first s outside start pass s') (rest : pass.rest = token :: tokens)
      (step : Pass.step b program { pass with rest := tokens } token s' = .ok next s'')
      (still : outside < conditionals next.stack) : Opened b program first s outside start next s''

/-! ## Stacks -/

/-- Whatever waits on the stack waits for an applicator: the first open bracket below it is one. -/
def Held (stack : List (Entry V A)) : Prop :=
  ∀ above entry below, stack = above ++ entry :: below → entry.isMarker = false →
    below.find? Entry.isMarker = some .applicator

theorem held_nil : Held ([] : List (Entry V A)) := by
  intro above entry below h
  simp at h

theorem held_of_append {above below : List (Entry V A)} (h : Held (above ++ below)) : Held below := by
  intro between entry lower heq
  exact h (above ++ between) entry lower (by rw [heq, List.append_assoc])

theorem Held.tail {entry : Entry V A} {stack : List (Entry V A)} (h : Held (entry :: stack)) : Held stack :=
  held_of_append (show Held ([entry] ++ stack) from h)

theorem held_cons {entry : Entry V A} {stack : List (Entry V A)}
    (hentry : entry.isMarker = false → stack.find? Entry.isMarker = some .applicator) (h : Held stack) :
    Held (entry :: stack) := by
  intro above other below heq hother
  cases above with
  | nil =>
    obtain ⟨rfl, rfl⟩ := List.cons.inj heq
    exact hentry hother
  | cons top above => exact h above other below (List.cons.inj heq).2 hother

theorem held_marker {entry : Entry V A} {stack : List (Entry V A)} (hentry : entry.isMarker = true) (h : Held stack) :
    Held (entry :: stack) :=
  held_cons (fun hvalue => by rw [hentry] at hvalue; cases hvalue) h

namespace Pass

/-- Where everything is held, looking at the top finds the bracket that a search from the top finds. -/
theorem innermost?_of_held {pass : Pass V A} (h : Held pass.stack) :
    pass.innermost? = pass.stack.find? Entry.isMarker := by
  refine innermost?_eq_find? fun entry hentry hvalue => ?_
  obtain ⟨below, hstack⟩ := List.head?_eq_some_iff.1 (Option.mem_def.1 hentry)
  rw [hstack, List.find?_cons_of_neg (by simp [hvalue])]
  exact h [] entry below hstack hvalue

end Pass

/-! ## The invariant -/

/-- The bookkeeping of a pass over the body is in order. -/
structure Pass.Tidy (body : List Token) (pass : Pass V A) : Prop where
  rest : pass.rest <:+ body
  /-- There is one place to go back to for each open conditional. -/
  count : pass.loops.length = conditionals pass.stack
  /-- Each of them stands behind a round bracket. -/
  starts : ∀ start ∈ pass.loops, .opening .conditional :: start <:+ body
  held : Held pass.stack

namespace Pass
variable {b : Backend σ V A} {program : Program} {P : Stop → Prop} {body : List Token}

/-- The bookkeeping is in order, and no conditional has been opened since the other pass. -/
abbrev TidyAfter (body : List Token) (pass next : Pass V A) : Prop := next.Tidy body ∧ next.loops <:+ pass.loops

/-- A round bracket opens one conditional, and no other token opens any. -/
def Moves (pass : Pass V A) (token : Token) (next : Pass V A) : Prop :=
  if token = .opening .conditional then next.loops = pass.rest :: pass.loops else next.loops <:+ pass.loops

theorem tidy_push {pass : Pass V A} (hpass : pass.Tidy body) (hinnermost : pass.innermost? = some .applicator)
    {entry : Entry V A} (hentry : entry.isMarker = false) : (pass.push entry).Tidy body where
  rest := hpass.rest
  count := hpass.count.trans (conditionals_append (List.forall_mem_singleton.2 hentry) pass.stack).symm
  starts := hpass.starts
  held := held_cons (fun _ => by rw [← innermost?_of_held hpass.held, hinnermost]) hpass.held

theorem tidy_of_taken {pass : Pass V A} (hpass : pass.Tidy body) {operands below : List (Entry V A)}
    (htaken : takeOperands [] pass.stack = some (operands, below)) : Tidy body { pass with stack := below } := by
  obtain ⟨entries, hstack, -, hentries⟩ := eq_append_of_takeOperands htaken
  have hheld := hpass.held
  rw [hstack] at hheld
  refine ⟨hpass.rest, ?_, hpass.starts, (held_of_append hheld).tail⟩
  rw [hpass.count, hstack, conditionals_append hentries]
  exact List.countP_cons_of_neg Bool.false_ne_true

theorem tidy_of_dropped {pass : Pass V A} (hpass : pass.Tidy body) {below : List (Entry V A)} {accessor : Option A}
    (hdropped : dropOperands pass.stack = some (accessor, below)) {start rest : List Token} {outer : List (List Token)}
    (hloops : pass.loops = start :: outer) (hrest : rest <:+ body) : Tidy body ⟨rest, below, outer⟩ := by
  obtain ⟨entries, hstack, hentries⟩ := eq_append_of_dropOperands hdropped
  have hcount := hpass.count
  have hheld := hpass.held
  rw [hstack, hloops, conditionals_append hentries, conditionals, List.countP_cons_of_pos rfl] at hcount
  rw [hstack] at hheld
  exact ⟨hrest, Nat.succ.inj hcount, fun other hother => hpass.starts other (hloops ▸ List.mem_cons_of_mem start hother),
    (held_of_append hheld).tail⟩

theorem tidy_of_reopened {pass : Pass V A} (hpass : pass.Tidy body) {below : List (Entry V A)} {accessor : Option A}
    (hdropped : dropOperands pass.stack = some (accessor, below)) (other : Option A) {rest : List Token} (hrest : rest <:+ body) :
    Tidy body ⟨rest, .conditional other :: below, pass.loops⟩ := by
  obtain ⟨entries, hstack, hentries⟩ := eq_append_of_dropOperands hdropped
  have hheld := hpass.held
  rw [hstack] at hheld
  refine ⟨hrest, ?_, hpass.starts, held_marker rfl (held_of_append hheld).tail⟩
  rw [hpass.count, hstack, conditionals_append hentries]
  exact (List.countP_cons_of_pos rfl).trans (List.countP_cons_of_pos rfl).symm

theorem tidy_of_hands {pass : Pass V A} {entry : Entry V A} {s : σ} {r : EStateM.Result Stop σ (Pass V A)}
    (hands : Hands b program pass entry s r) (hpass : pass.Tidy body) (hentry : entry.isMarker = false) :
    Outcome (fun _ => True) (pass.TidyAfter body) r := by
  induction hands with
  | kept inside => exact ⟨tidy_push hpass inside hentry, List.suffix_rfl⟩
  | dropped => exact ⟨hpass, List.suffix_rfl⟩
  | acted => exact ⟨hpass, List.suffix_rfl⟩
  | bound stack => exact ⟨tidy_of_reopened hpass (by rw [stack]; rfl) _ hpass.rest, List.suffix_rfl⟩
  | skipped stack _ _ skip loops _ ih =>
    have hrest := (skipBody_suffix skip).trans hpass.rest
    refine (ih (tidy_of_dropped hpass (by rw [stack]; rfl) loops hrest) rfl).mono (fun _ => id) fun next hnext => ?_
    exact ⟨hnext.1, hnext.2.trans (loops ▸ List.suffix_cons _ _)⟩
  | _ => trivial

/-- One token keeps the bookkeeping in order. -/
theorem step_tidy {pass : Pass V A} (hpass : pass.Tidy body) {token : Token} (htoken : token :: pass.rest <:+ body) (s : σ) :
    Outcome (fun _ => True) (fun next => next.Tidy body ∧ pass.Moves token next) (step b program pass token s) := by
  have hother : token ≠ .opening .conditional → ∀ {r : EStateM.Result Stop σ (Pass V A)},
      Outcome (fun _ => True) (pass.TidyAfter body) r → Outcome (fun _ => True) (fun next => next.Tidy body ∧ pass.Moves token next) r := by
    intro hne r
    refine Outcome.mono (fun _ => id) fun next hnext => ⟨hnext.1, ?_⟩
    rw [Moves, if_neg hne]
    exact hnext.2
  have hsteps : Steps b program pass token s (step b program pass token s) := steps_step pass token s
  generalize step b program pass token s = r at hsteps
  cases hsteps with
  | handed plain hands => exact hother (by rintro rfl; cases plain) (tidy_of_hands hands hpass rfl)
  | opened =>
    have hcount : pass.loops.length = conditionals (.applicator :: pass.stack) :=
      hpass.count.trans (List.countP_cons_of_neg Bool.false_ne_true).symm
    exact hother nofun ⟨⟨hpass.rest, hcount, hpass.starts, held_marker rfl hpass.held⟩, List.suffix_rfl⟩
  | entered =>
    have hcount : (pass.rest :: pass.loops).length = conditionals (.conditional none :: pass.stack) := by
      rw [List.length_cons, hpass.count]
      exact (List.countP_cons_of_pos rfl).symm
    exact ⟨⟨hpass.rest, hcount, List.forall_mem_cons.2 ⟨htoken, hpass.starts⟩, held_marker rfl hpass.held⟩, (if_pos rfl).mpr rfl⟩
  | closed taken _ hands =>
    have hnext := tidy_of_hands hands (tidy_of_taken hpass taken) rfl
    exact hother nofun hnext
  | again dropped _ loops =>
    have hstart := hpass.starts _ (loops ▸ List.mem_cons_self)
    exact hother nofun ⟨tidy_of_reopened hpass dropped none ((List.suffix_cons _ _).trans hstart), List.suffix_rfl⟩
  | left dropped _ loops hands =>
    refine hother nofun ((tidy_of_hands hands (tidy_of_dropped hpass dropped loops hpass.rest) rfl).mono (fun _ => id) ?_)
    exact fun next hnext => ⟨hnext.1, hnext.2.trans (loops ▸ List.suffix_cons _ _)⟩
  | _ => trivial

section
variable (h : b.StopsOnly P) (hP : ∀ error : Error, error.Unguarded → P (.fault error))
include h hP

theorem step_unguarded {pass : Pass V A} (hpass : pass.Tidy body) {token : Token} (htoken : token :: pass.rest <:+ body) :
    (step b program pass token).Ends P fun next => next.Tidy body := fun s =>
  Outcome.of_parts (step_ends h hP (fun hless => absurd hpass.count (Nat.ne_of_lt hless)) token s)
    ((step_tidy hpass htoken s).mono (fun _ => id) fun _ => And.left)

/-- However long the pass is, no guard ends it. -/
theorem run_unguarded (fuel : Nat) {pass : Pass V A} (hpass : pass.Tidy body) (hfuel : P .outOfFuel) :
    (run b program fuel pass).Ends P fun _ => True := by
  induction fuel generalizing pass with
  | zero =>
    unfold run
    split
    · exact finish_ends hP pass
    · exact fun _ => hfuel
  | succ fuel ih =>
    obtain ⟨rest, stack, loops⟩ := pass
    cases rest with
    | nil => exact finish_ends hP _
    | cons token tokens =>
      have hread : Tidy body (⟨tokens, stack, loops⟩ : Pass V A) :=
        ⟨(List.suffix_cons token tokens).trans hpass.rest, hpass.count, hpass.starts, hpass.held⟩
      exact Action.ends_bind (step_unguarded h hP hread hpass.rest) fun next hnext => ih hnext

end

/-! ## Every moment -/

section
variable {first : Pass V A} {s s' s'' : σ} {pass next : Pass V A} {token : Token} {tokens : List Token} {outside : Nat}
  {start : List Token}

/-- The moments that a pass reaches are those from which it goes on with less fuel. -/
theorem run_of_reaches (h : Reaches b program first s pass s') :
    ∃ n, ∀ fuel, run b program (fuel + n) first s = run b program fuel pass s' := by
  induction h with
  | first => exact ⟨0, fun _ => rfl⟩
  | @next pass next s' s'' token tokens _ hrest hstep ih =>
    obtain ⟨n, hn⟩ := ih
    refine ⟨n + 1, fun fuel => ?_⟩
    obtain ⟨rest, stack, loops⟩ := pass
    obtain rfl : rest = token :: tokens := hrest
    rw [show fuel + (n + 1) = fuel + 1 + n by omega, hn (fuel + 1)]
    exact Action.bind_of_ok hstep

theorem tidy_first (body : List Token) : Tidy body ({ rest := body } : Pass V A) where
  rest := List.suffix_rfl
  count := rfl
  starts := nofun
  held := held_nil

theorem tidy_of_step (hpass : pass.Tidy body) (hrest : pass.rest = token :: tokens)
    (hstep : step b program { pass with rest := tokens } token s' = .ok next s'') :
    next.Tidy body ∧ Moves { pass with rest := tokens } token next := by
  have htokens : token :: tokens <:+ body := hrest ▸ hpass.rest
  have hread : Tidy body { pass with rest := tokens } :=
    ⟨(List.suffix_cons token tokens).trans htokens, hpass.count, hpass.starts, hpass.held⟩
  have hnext : Outcome _ _ (step b program { pass with rest := tokens } token s') := step_tidy hread htokens s'
  rwa [hstep] at hnext

theorem tidy_of_reaches (h : Reaches b program { rest := body } s pass s') : pass.Tidy body := by
  induction h with
  | first => exact tidy_first body
  | next _ hrest hstep ih => exact (tidy_of_step ih hrest hstep).1

/-- A conditional that was open before a token and is open after it goes back to the same place. -/
theorem getElem?_of_moves (hmoves : pass.Moves token next) (hbefore : outside < pass.loops.length)
    (hafter : outside < next.loops.length) : next.loops.reverse[outside]? = pass.loops.reverse[outside]? := by
  unfold Moves at hmoves
  split at hmoves
  · rw [hmoves, List.reverse_cons, List.getElem?_append_left (by simpa using hbefore)]
  · obtain ⟨closed, hclosed⟩ := hmoves
    rw [← hclosed, List.reverse_append, List.getElem?_append_left (by simpa using hafter)]

theorem reaches_of_opened (h : Opened b program { rest := body } s outside start pass s') :
    Reaches b program { rest := body } s pass s' := by
  induction h with
  | bracket reached hrest _ hstep => exact reached.next hrest hstep
  | later _ hrest hstep _ ih => exact ih.next hrest hstep

/-- A conditional goes back to the place behind the round bracket that it began with. -/
theorem getElem?_of_opened (h : Opened b program { rest := body } s outside start pass s') :
    pass.loops.reverse[outside]? = some start := by
  induction h with
  | @bracket pass next s' s'' reached hrest haround hstep =>
    obtain ⟨-, hmoves⟩ := tidy_of_step (tidy_of_reaches reached) hrest hstep
    have hlength : pass.loops.length = outside := (tidy_of_reaches reached).count.trans haround
    have hnext : next.loops = start :: pass.loops := hmoves
    rw [hnext, List.reverse_cons, ← hlength, ← List.length_reverse, List.getElem?_concat_length]
  | @later pass next s' s'' token tokens opened hrest hstep hstill ih =>
    obtain ⟨htidy, hmoves⟩ := tidy_of_step (tidy_of_reaches (reaches_of_opened opened)) hrest hstep
    have hbefore : outside < pass.loops.length := by
      have hlength := (List.getElem?_eq_some_iff.1 ih).1
      rwa [List.length_reverse] at hlength
    rw [← htidy.count] at hstill
    rw [getElem?_of_moves hmoves hbefore hstill]
    exact ih

/-- Every place to go back to is that of a conditional which began with the round bracket in front of it. -/
theorem opened_of_getElem? (h : Reaches b program { rest := body } s pass s')
    (hstart : pass.loops.reverse[outside]? = some start) : Opened b program { rest := body } s outside start pass s' := by
  induction h with
  | first => simp at hstart
  | @next pass next s' s'' token tokens reached hrest hstep ih =>
    obtain ⟨htidy, hmoves⟩ := tidy_of_step (tidy_of_reaches reached) hrest hstep
    have hafter : outside < next.loops.length := by
      have hlength := (List.getElem?_eq_some_iff.1 hstart).1
      rwa [List.length_reverse] at hlength
    by_cases hbefore : outside < pass.loops.length
    · -- The conditional was open before this token.
      rw [getElem?_of_moves hmoves hbefore hafter] at hstart
      exact .later (ih hstart) hrest hstep (htidy.count ▸ hafter)
    · -- It was not, so this token is its round bracket.
      unfold Moves at hmoves
      split at hmoves
      · next hbracket =>
        subst hbracket
        rw [hmoves, List.length_cons] at hafter
        have hlength : pass.loops.length = outside := by
          change outside < pass.loops.length + 1 at hafter
          omega
        rw [hmoves, List.reverse_cons, ← hlength, ← List.length_reverse, List.getElem?_concat_length] at hstart
        obtain rfl := Option.some.inj hstart
        exact .bracket reached hrest ((tidy_of_reaches reached).count.symm.trans hlength) hstep
      · exact absurd (Nat.lt_of_lt_of_le hafter hmoves.length_le) hbefore

end

/-- Whenever an evaluation is about to read a token, each open conditional goes back to the place behind its own round bracket, whatever
waits on the stack waits for an applicator, and looking at the top finds the bracket that a search finds. A fault by which the pass would
say otherwise comes from an operation of the backend, if it ever comes. -/
theorem bookkeeping_of_reaches (b : Backend σ V A) (program : Program) (body : List Token) (s : σ) :
    (∀ pass s', Reaches b program { rest := body } s pass s' →
      (∃ n, ∀ fuel, evaluate b program (fuel + n) body s = run b program fuel pass s') ∧
      pass.loops.length = conditionals pass.stack ∧
      (∀ start ∈ pass.loops, ∃ before, body = before ++ .opening .conditional :: start) ∧
      (∀ outside start, pass.loops.reverse[outside]? = some start ↔
        Opened b program { rest := body } s outside start pass s') ∧
      (∀ above entry below, pass.stack = above ++ entry :: below → entry.isMarker = false →
        below.find? Entry.isMarker = some .applicator) ∧
      (∀ above entry accessor below, pass.stack = above ++ entry :: .conditional accessor :: below → entry.isMarker = true) ∧
      ∀ above below, pass.stack = above ++ below →
        innermost? { pass with stack := below } = below.find? Entry.isMarker) ∧
    ∀ fault : StructureFault, fault.Guards fault.message → b.StopsOnly (· ≠ .fault (.structural fault)) → ∀ fuel s',
      evaluate b program fuel body s ≠ .error (.fault (.structural fault)) s' := by
  refine ⟨fun pass s' h => ?_, fun fault hguards hb fuel s' heq => ?_⟩
  · have htidy := tidy_of_reaches h
    refine ⟨run_of_reaches h, htidy.count, fun start hstart => ?_,
      fun outside start => ⟨opened_of_getElem? h, getElem?_of_opened⟩, htidy.held, ?_, ?_⟩
    · obtain ⟨before, hbefore⟩ := htidy.starts start hstart
      exact ⟨before, hbefore.symm⟩
    · intro above entry accessor below hstack
      cases hentry : entry.isMarker with
      | true => rfl
      | false =>
        have hfind := htidy.held above entry _ hstack hentry
        rw [List.find?_cons_of_pos rfl] at hfind
        cases hfind
    · intro above below hstack
      have hheld := htidy.held
      rw [hstack] at hheld
      exact innermost?_of_held (held_of_append hheld)
  · have hP : ∀ error : Error, error.Unguarded → Stop.fault error ≠ .fault (.structural fault) := by
      rintro error hunguarded ⟨⟩
      exact hunguarded fault fault.message rfl hguards
    exact Action.stop_of_ends (run_unguarded hb hP fuel (tidy_first body) nofun) heq rfl

/-- In the middle of `( 0 [ 1 ( 2 + ]`, where the inner round bracket stays open, the inner conditional goes back to `2`. The closing
bracket then is one of the wrong kind. -/
theorem bookkeeping_of_reaches_of_unclosed :
    let body : List Token := [.opening .conditional, .literal 0, .opening .applicator, .literal 1, .opening .conditional,
      .literal 2, .builtin .increment, .closing .applicator]
    (∃ pass s, Reaches Trace.backend (.ofEntry body) { rest := body } {} pass s ∧
      pass.rest = [.builtin .increment, .closing .applicator] ∧
      pass.loops.length = conditionals pass.stack ∧
      Opened Trace.backend (.ofEntry body) { rest := body } {} 1 (body.drop 5) pass s) ∧
    ∀ fuel s, evaluate Trace.backend (.ofEntry body) fuel body {} ≠ .error (.fault (.structural .loopStartMissing)) s := by
  intro body
  have hnever : Trace.backend.StopsOnly (· ≠ .fault (.structural .loopStartMissing)) :=
    { literal := fun _ _ => trivial, parameter := fun _ => trivial, resolveAccessor := fun _ _ => trivial,
      applyBuiltin := fun _ _ _ => trivial, assign := fun _ _ _ => trivial, call := fun _ _ _ => trivial,
      resolve := fun _ _ => trivial, enterLoop := fun _ => trivial, testLoop := fun _ _ => trivial,
      exitLoop := fun _ _ => trivial }
  obtain ⟨hmoments, hguards⟩ := bookkeeping_of_reaches Trace.backend (.ofEntry body) body {}
  refine ⟨?_, hguards .loopStartMissing .start hnever⟩
  obtain ⟨pass, s, hreached, hrest, hloop⟩ : ∃ pass s, Reaches Trace.backend (.ofEntry body) { rest := body } {} pass s ∧
      pass.rest = [.builtin .increment, .closing .applicator] ∧ pass.loops.reverse[1]? = some (body.drop 5) :=
    ⟨_, _, .next (.next (.next (.next (.next (.next .first rfl rfl) rfl rfl) rfl rfl) rfl rfl) rfl rfl) rfl rfl, rfl, rfl⟩
  obtain ⟨-, hcount, -, hopened, -⟩ := hmoments pass s hreached
  exact ⟨pass, s, hreached, hrest, hcount, (hopened 1 _).1 hloop⟩

end Pass

end Bracketry
