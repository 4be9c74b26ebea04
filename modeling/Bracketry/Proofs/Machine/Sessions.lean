import Bracketry.Proofs.Machine.CallDepth
import Bracketry.Proofs.Machine.Twins

/-!
# Sessions

Programs may be run one after the other on one machine. What one leaves to the next is its memory and the rest of its streams, and
nothing of its calls, wherever it was stopped.

* `Machine.Episode`, `Machine.session` : one run among others; programs one after the other;
* `Machine.frames_run` : a run ends with the applications active that were active before;
* `Machine.run_renewed` : what has happened on the streams is of no consequence;
* `Machine.session_apart` : each run is one on a fresh machine, and all its calls are within the limit.
-/

namespace Bracketry

namespace Streams
variable {streams before recent : Streams}

theorem output_of_log (h : streams.log = recent.log ++ before.log) : streams.output = before.output ++ recent.output := by
  unfold output events
  rw [h, List.reverse_append, List.filterMap_append]

theorem consumed_of_log (h : streams.log = recent.log ++ before.log) :
    streams.consumed = before.consumed + recent.consumed := by
  unfold consumed events
  rw [h, List.reverse_append, List.filterMap_append, List.length_append]

theorem since_renewed (streams : Streams) :
    Since streams { streams with log := [] } streams { streams with log := [] } :=
  ⟨rfl, rfl, rfl, ⟨[], rfl, rfl⟩, List.suffix_refl _⟩

end Streams

namespace Machine

structure Episode where
  program : Program
  fuel : Nat
  before : Machine
  result : EStateM.Result Stop Machine Unit

/-- Runs programs one after the other on one machine, each with its own fuel, however the one before has ended. -/
def session (limits : Limits) : List (Program × Nat) → Machine → List Episode
  | [], _ => []
  | (program, fuel) :: runs, machine =>
    let result := run limits program fuel machine
    ⟨program, fuel, machine, result⟩ :: session limits runs (after result)

variable {limits : Limits} {program : Program} {fuel : Nat} {machine : Machine}

/-! ## Active applications -/

theorem frames_lastFlush (r : EStateM.Result Stop Machine Unit) : (after (lastFlush r)).frames = (after r).frames :=
  of_lastFlush Machine.frames (fun machine => (perform_uncalled Streams.flush machine).frames) r

theorem frames_run (h : machine.frames.size ≤ limits.maxCallDepth) :
    (after (run limits program fuel machine)).frames = machine.frames := by
  rw [run_eq, frames_lastFlush]
  exact (Watched.passBody_minds limits program (fuel + 1) program.entry { machine } h).frames

theorem of_mem_session {runs : List (Program × Nat)} {episode : Episode} (hframes : machine.frames = #[])
    (h : episode ∈ session limits runs machine) :
    episode.before.frames = #[] ∧ episode.result = run limits episode.program episode.fuel episode.before := by
  induction runs generalizing machine with
  | nil => cases h
  | cons first runs ih =>
    rcases List.mem_cons.1 h with rfl | hlater
    · exact ⟨hframes, rfl⟩
    · refine ih ?_ hlater
      rw [frames_run (by rw [hframes]; exact Nat.zero_le _), hframes]

/-! ## Fresh machines -/

/-- A run without active applications is one on a fresh machine with the same memory and the same streams to come. -/
theorem run_renewed (limits : Limits) (program : Program) (fuel : Nat) (hframes : machine.frames = #[]) :
    let r := run limits program fuel machine
    let fresh := run limits program fuel { memory := machine.memory, streams := { machine.streams with log := [] } }
    resultOf r = resultOf fresh ∧ Twin Eq machine.streams { machine.streams with log := [] } (after r) (after fresh) := by
  intro r fresh
  have htwin : Twin Eq machine.streams { machine.streams with log := [] } machine
      { memory := machine.memory, streams := { machine.streams with log := [] } } :=
    ⟨rfl, machine.streams.since_renewed, hframes⟩
  exact resultOf_eq_of_abreast (run_twins program (.eq _) fuel _ _ htwin)

/-- No application is active before or after a run of a session, and each run does what it does on a fresh machine with the memory and the
rest of the streams. At no moment are more applications active than the limit allows, and the limit ends a run just in case the last thing
it did was a call with so many active. -/
theorem session_apart (limits : Limits) (runs : List (Program × Nat)) (memory : Memory) (streams : Streams) (episode : Episode)
    (h : episode ∈ session limits runs { memory, streams }) :
    let before := episode.before
    let left := after episode.result
    let fresh := run limits episode.program episode.fuel
      { memory := before.memory, streams := { before.streams with log := [] } }
    let watched := Watched.evaluateEntry limits episode.program episode.fuel { machine := before }
    let moments := (Watched.left watched).moments
    before.frames = #[] ∧ left.frames = #[] ∧
    (resultOf episode.result = resultOf fresh ∧ left.memory = (after fresh).memory ∧
      left.streams.output = before.streams.output ++ (after fresh).streams.output ∧
      left.streams.consumed = before.streams.consumed + (after fresh).streams.consumed ∧
      { left.streams with log := [] } = { (after fresh).streams with log := [] }) ∧
    Watched.forget watched = evaluateEntry limits episode.program episode.fuel before ∧
    (∀ moment ∈ moments, moment.active ≤ limits.maxCallDepth) ∧
    (∀ limit, stopOf? (evaluateEntry limits episode.program episode.fuel before) = some (.fault (.callDepthExceeded limit)) ↔
      limit = limits.maxCallDepth ∧ ∃ earlier, moments = ⟨limits.maxCallDepth, true⟩ :: earlier) ∧
    ∀ later earlier, moments = later ++ ⟨limits.maxCallDepth, true⟩ :: earlier → later = [] := by
  intro before left fresh watched moments
  obtain ⟨hframes, hresult⟩ : before.frames = #[] ∧ episode.result = run limits episode.program episode.fuel before :=
    of_mem_session rfl h
  have hdepth : before.frames.size ≤ limits.maxCallDepth := by
    rw [hframes]
    exact Nat.zero_le _
  have hleft : left.frames = #[] := by
    change (after episode.result).frames = #[]
    rw [hresult, frames_run hdepth, hframes]
  refine ⟨hframes, hleft, ?_, ?_⟩
  · obtain ⟨hsame, hmemory, hstreams, -⟩ := run_renewed limits episode.program episode.fuel hframes
    rw [← hresult] at hsame hmemory hstreams
    -- The fresh machine has noted just what has happened since.
    obtain ⟨recent, hlog, hfresh⟩ := hstreams.log
    rw [List.append_nil] at hfresh
    rw [← hfresh] at hlog
    refine ⟨hsame, hmemory, Streams.output_of_log hlog, Streams.consumed_of_log hlog, ?_⟩
    rw [Streams.mk.injEq]
    exact ⟨hstreams.reads, hstreams.writes, hstreams.flushes, rfl⟩
  · obtain ⟨hforget, hheeds⟩ := Watched.evaluateEntry_heeds episode.program episode.fuel hdepth
    exact ⟨hforget, fun _ => hheeds.active_le, hheeds.stop_eq_iff, fun _ _ => hheeds.later_eq_nil⟩

/-- With room for two calls, `{f [$ f]} [0 1 f]` is stopped in the second of its calls; `{f [$ g]} {g [$ .]} [0 f]`, which makes
two, still can make both. -/
theorem session_apart_of_recursion :
    let deep : Program :=
      ⟨[(entryName, [.opening .applicator, .literal 0, .literal 1, .identifier "f", .closing .applicator]),
        ("f", [.opening .applicator, .parameter, .identifier "f", .closing .applicator])]⟩
    let shallow : Program :=
      ⟨[(entryName, [.opening .applicator, .literal 0, .identifier "f", .closing .applicator]),
        ("f", [.opening .applicator, .parameter, .identifier "g", .closing .applicator]),
        ("g", [.opening .applicator, .parameter, .builtin .output, .closing .applicator])]⟩
    let limits : Limits := ⟨1, 2⟩
    ∃ stopped completed, session limits [(deep, 9), (shallow, 9)] { memory := .zeroed 1 } = [stopped, completed] ∧
      resultOf stopped.result = .error (.fault (.callDepthExceeded 2)) ∧ (after stopped.result).frames = #[] ∧
      (∃ earlier, (Watched.left (Watched.evaluateEntry limits deep 9 { machine := stopped.before })).moments =
        ⟨2, true⟩ :: earlier) ∧
      resultOf completed.result = .ok () ∧ (after completed.result).streams.output = [1] := by
  intro deep shallow limits
  let stopped : Episode := ⟨deep, 9, { memory := .zeroed 1 }, run limits deep 9 { memory := .zeroed 1 }⟩
  let completed : Episode := ⟨shallow, 9, after stopped.result, run limits shallow 9 (after stopped.result)⟩
  have hmem : stopped ∈ session limits [(deep, 9), (shallow, 9)] { memory := .zeroed 1 } := List.mem_cons_self
  obtain ⟨-, hframes, -, -, -, hlimit, -⟩ := session_apart limits _ _ _ stopped hmem
  have hstop : stopOf? (evaluateEntry limits deep 9 stopped.before) = some (.fault (.callDepthExceeded 2)) := rfl
  exact ⟨stopped, completed, rfl, rfl, hframes, ((hlimit 2).1 hstop).2, rfl, rfl⟩

end Machine

end Bracketry
