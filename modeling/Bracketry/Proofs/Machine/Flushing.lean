import Bracketry.Proofs.Machine.Sessions
import Bracketry.Proofs.Machine.Widening

/-!
# Flushing

A program that waits for input has shown all its output, and so has one that has ended.

* `Streams.Ready` : the latest events are a flush that succeeded and attempts to read that were interrupted;
* `Streams.Flushed` : every attempt to read was made where the streams were ready;
* `Streams.exists_log_readFrom`, `Streams.exists_log_writeFrom` : the events of one operation;
* `Machine.passBody_keeps` : a property of the streams that reading and writing keep is kept by a body and all it calls;
* `Machine.events_of_input` : what the input of a byte adds to the events;
* `Machine.log_of_lastFlush` : a run ends with one flush more, which has the last word on its result;
* `Machine.session_flushed` : all of this for programs one after the other.
-/

namespace Bracketry

namespace Streams
variable {log later earlier : List Event} {streams : Streams}

/-! ## Logs -/

/-- An input operation has flushed the output, and none of its attempts to read has come to anything yet. The log is latest first. -/
def Ready (log : List Event) : Prop :=
  ∃ retried before, log = retried ++ .flush .done :: before ∧ ∀ event ∈ retried, event = .read (.fault .interrupted)

/-- Every attempt to read was made where the streams were ready for it. -/
def Flushed (log : List Event) : Prop := ∀ later reply earlier, log = later ++ .read reply :: earlier → Ready earlier

theorem flushed_nil : Flushed [] := by
  intro later reply earlier h
  simp at h

theorem flushed_cons {event : Event} (hevent : ∀ reply, event = .read reply → Ready log) (h : Flushed log) :
    Flushed (event :: log) := by
  intro later reply earlier heq
  cases later with
  | nil =>
    obtain ⟨rfl, rfl⟩ := List.cons.inj heq
    exact hevent reply rfl
  | cons other later => exact h later reply earlier (List.cons.inj heq).2

theorem flushed_append {recent : List Event} (hrecent : ∀ reply, .read reply ∉ recent) (h : Flushed log) :
    Flushed (recent ++ log) := by
  induction recent with
  | nil => exact h
  | cons event recent ih =>
    refine flushed_cons (fun reply heq => ?_) (ih fun reply hmem => hrecent reply (List.mem_cons_of_mem event hmem))
    exact absurd (heq ▸ List.mem_cons_self) (hrecent reply)

theorem flushed_retried {retried before : List Event} (hretried : ∀ event ∈ retried, event = .read (.fault .interrupted))
    (h : Flushed before) : Flushed (retried ++ .flush .done :: before) := by
  induction retried with
  | nil => exact flushed_cons nofun h
  | cons event retried ih =>
    have hrest : ∀ event ∈ retried, event = .read (.fault .interrupted) :=
      fun other hother => hretried other (List.mem_cons_of_mem event hother)
    exact flushed_cons (fun _ _ => ⟨retried, before, rfl, hrest⟩) (ih hrest)

/-- Where the streams are ready, a flush has succeeded since the last byte was taken. -/
theorem mem_of_ready {between before : List Event} {value : UInt8}
    (h : Ready (between ++ .write value .accepted :: before)) : .flush .done ∈ between := by
  obtain ⟨retried, earlier, heq, hretried⟩ := h
  induction between generalizing retried with
  | nil =>
    cases retried with
    | nil => cases heq
    | cons event retried =>
      have hread := hretried event List.mem_cons_self
      rw [← (List.cons.inj heq).1] at hread
      cases hread
  | cons event between ih =>
    cases retried with
    | nil =>
      rw [(List.cons.inj heq).1]
      exact List.mem_cons_self
    | cons other retried =>
      have hrest := ih retried (List.cons.inj heq).2 fun event hevent => hretried event (List.mem_cons_of_mem other hevent)
      exact List.mem_cons_of_mem event hrest

/-! ## Operations -/

theorem exists_log_readFrom (streams : Streams) (replies : List ReadReply) :
    ∃ retried reply, (streams.readFrom replies).2.log = .read reply :: (retried ++ streams.log) ∧
      ∀ event ∈ retried, event = .read (.fault .interrupted) := by
  induction replies generalizing streams with
  | nil => exact ⟨[], .nothing, rfl, nofun⟩
  | cons reply replies ih =>
    cases reply with
    | byte value => exact ⟨[], .byte value, rfl, nofun⟩
    | nothing => exact ⟨[], .nothing, rfl, nofun⟩
    | fault fault =>
      cases fault with
      | interrupted =>
        obtain ⟨retried, reply, hlog, hretried⟩ :=
          ih { streams with reads := replies, log := .read (.fault .interrupted) :: streams.log }
        refine ⟨retried ++ [.read (.fault .interrupted)], reply, ?_, fun event hevent => ?_⟩
        · rw [List.append_assoc]
          exact hlog
        · rcases List.mem_append.1 hevent with hretry | hfirst
          · exact hretried event hretry
          · exact List.mem_singleton.1 hfirst
      | _ => exact ⟨[], _, rfl, nofun⟩

theorem exists_log_writeFrom (streams : Streams) (value : UInt8) (replies : List WriteReply) :
    ∃ recent, (writeFrom value streams replies).2.log = recent ++ streams.log ∧ ∀ reply, .read reply ∉ recent := by
  have hone : ∀ reply other, Event.read reply ∉ [Event.write value other] := by simp
  induction replies generalizing streams with
  | nil => exact ⟨[.write value .accepted], rfl, fun reply => hone reply _⟩
  | cons reply replies ih =>
    cases reply with
    | accepted => exact ⟨[.write value .accepted], rfl, fun reply => hone reply _⟩
    | nothing => exact ⟨[.write value .nothing], rfl, fun reply => hone reply _⟩
    | fault fault =>
      cases fault with
      | interrupted =>
        obtain ⟨recent, hlog, hrecent⟩ :=
          ih { streams with writes := replies, log := .write value (.fault .interrupted) :: streams.log }
        refine ⟨recent ++ [.write value (.fault .interrupted)], ?_, fun reply hmem => ?_⟩
        · rw [List.append_assoc]
          exact hlog
        · rcases List.mem_append.1 hmem with hretry | hfirst
          · exact hrecent reply hretry
          · exact hone reply _ hfirst
      | _ => exact ⟨[.write value (.fault _)], rfl, fun reply => hone reply _⟩

theorem exists_log_flush (streams : Streams) :
    ∃ reply, streams.flush.2.log = .flush reply :: streams.log ∧
      (reply = .done ∧ streams.flush.1 = .ok () ∨ ∃ fault, reply = .fault fault ∧ streams.flush.1 = .error fault) := by
  unfold flush
  cases streams.flushes with
  | nil => exact ⟨.done, rfl, .inl ⟨rfl, rfl⟩⟩
  | cons reply flushes =>
    cases reply with
    | done => exact ⟨.done, rfl, .inl ⟨rfl, rfl⟩⟩
    | fault fault => exact ⟨.fault fault, rfl, .inr ⟨fault, rfl, rfl⟩⟩

theorem flushed_write (value : UInt8) (h : Flushed streams.log) : Flushed (streams.write value).2.log := by
  obtain ⟨recent, hlog, hrecent⟩ := exists_log_writeFrom streams value streams.writes
  unfold write
  rw [hlog]
  exact flushed_append hrecent h

theorem flushed_flush (h : Flushed streams.log) : Flushed streams.flush.2.log := by
  obtain ⟨reply, hlog, -⟩ := exists_log_flush streams
  rw [hlog]
  exact flushed_cons nofun h

end Streams

namespace Machine
variable {α : Type} {P : Streams → Prop} {limits : Limits} {program : Program}

/-! ## What reading and writing keep -/

abbrev keepingStreams (P : Streams → Prop) : Relator Machine Machine := .keeping fun machine => P machine.streams

theorem leaves_iff {I : Machine → Prop} {r : EStateM.Result Stop Machine α} : Relator.Leaves I r ↔ I (after r) := by
  cases r <;> exact Iff.rfl

theorem streams_perform (operation : Streams → Except StreamFault α × Streams) (machine : Machine) :
    (after (perform operation machine)).streams = (operation machine.streams).2 := by
  cases hoperation : operation machine.streams with
  | mk result streams =>
    cases result with
    | ok a => rw [perform_of_ok hoperation]; rfl
    | error fault => rw [perform_of_error hoperation]; rfl

theorem perform_keeps {operation : Streams → Except StreamFault α × Streams}
    (h : ∀ streams, P streams → P (operation streams).2) : (keepingStreams P).Rel Eq (perform operation) (perform operation) := by
  refine Relator.keeping_iff.2 fun machine hP => leaves_iff.2 ?_
  rw [streams_perform]
  exact h _ hP

/-- What keeps a property of the streams is done alike by a machine and itself. -/
theorem keepingStreams_eq_pairs : keepingStreams P = pairs Eq fun streams streams' => streams = streams' ∧ P streams := by
  refine congrArg Relator.abreast (funext fun machine => funext fun machine' => propext ⟨?_, ?_⟩)
  · rintro ⟨rfl, h⟩
    exact ⟨rfl, ⟨rfl, h⟩, rfl⟩
  · obtain ⟨memory, streams, frames⟩ := machine
    obtain ⟨memory', streams', frames'⟩ := machine'
    rintro ⟨hmemory, ⟨hstreams, h⟩, hframes⟩
    obtain rfl : memory = memory' := hmemory
    obtain rfl : streams = streams' := hstreams
    obtain rfl : frames = frames' := hframes
    exact ⟨rfl, h⟩

/-- What the input and the output of a byte keep. -/
structure Kept (P : Streams → Prop) : Prop where
  read : (keepingStreams P).Rel Eq readByte readByte
  write (value : UInt8) : (keepingStreams P).Rel Eq (writeByte value) (writeByte value)
  flush (streams : Streams) (h : P streams) : P streams.flush.2

theorem lastFlush_of_exhausted {r : EStateM.Result Stop Machine Unit} (h : Exhausted r) : lastFlush r = r := by
  cases r with
  | ok _ machine => exact h.elim
  | error stop machine =>
    cases stop with
    | fault error => exact h.elim
    | outOfFuel => rfl

/-- What has ended is flushed once more. -/
theorem after_lastFlush {r : EStateM.Result Stop Machine Unit} (h : ¬Exhausted r) :
    after (lastFlush r) = after (perform Streams.flush (after r)) := by
  cases r with
  | ok _ machine => rfl
  | error stop machine =>
    cases stop with
    | outOfFuel => exact absurd trivial h
    | fault error =>
      unfold lastFlush
      dsimp only [after]
      cases perform Streams.flush machine <;> rfl

section
variable (hP : Kept P)
include hP

theorem keepingStreams_respects : Respects (keepingStreams P) limits limits program (· < limits.dataSize) := by
  rw [keepingStreams_eq_pairs]
  exact pairs_respects (.eq _) (keepingStreams_eq_pairs ▸ hP.read) fun value => keepingStreams_eq_pairs ▸ hP.write value

variable (limits program) in
theorem passBody_keeps (fuel : Nat) (body : List Token) :
    (keepingStreams P).Rel Eq (passBody limits program fuel body) (passBody limits program fuel body) :=
  (keepingStreams_respects hP).passBody fuel body

theorem run_keeps (fuel : Nat) {machine : Machine} (h : P machine.streams) :
    P (after (run limits program fuel machine)).streams := by
  have hbody := leaves_iff.1 (Relator.keeping_iff.1 (passBody_keeps limits program hP (fuel + 1) program.entry) machine h)
  rw [run_eq]
  generalize passBody limits program (fuel + 1) program.entry machine = r at hbody
  by_cases hr : Exhausted r
  · rw [lastFlush_of_exhausted hr]
    exact hbody
  · rw [after_lastFlush hr, streams_perform]
    exact hP.flush _ hbody

/-- What reading and writing keep holds after every run of a session if it holds at its beginning. -/
theorem kept_of_mem_session {runs : List (Program × Nat)} {machine : Machine} {episode : Episode} (h : P machine.streams)
    (hmem : episode ∈ session limits runs machine) : P (after episode.result).streams := by
  induction runs generalizing machine with
  | nil => cases hmem
  | cons first runs ih =>
    have hfirst : P (after (run limits first.1 first.2 machine)).streams := run_keeps hP first.2 h
    rcases List.mem_cons.1 hmem with rfl | hlater
    · exact hfirst
    · exact ih hfirst hlater

end

/-! ## Flushes -/

/-- The input of a byte begins with a flush. If that fails nothing is read; if it succeeds, there is one attempt to read that is not
made again. -/
theorem log_of_readByte (machine : Machine) :
    (∃ fault, resultOf (readByte machine) = .error (.fault (.stream fault)) ∧
      (after (readByte machine)).streams.log = .flush (.fault fault) :: machine.streams.log) ∨
    ∃ retried reply, (after (readByte machine)).streams.log = .read reply :: (retried ++ .flush .done :: machine.streams.log) ∧
      ∀ event ∈ retried, event = .read (.fault .interrupted) := by
  obtain ⟨reply, hlog, hreply⟩ := Streams.exists_log_flush machine.streams
  unfold readByte
  rcases hreply with ⟨rfl, hresult⟩ | ⟨fault, rfl, hresult⟩
  · rw [Action.bind_of_ok (perform_of_ok (Prod.ext hresult rfl)), streams_perform, ← hlog]
    exact .inr (Streams.exists_log_readFrom _ _)
  · rw [Action.bind_of_error (perform_of_error (Prod.ext hresult rfl))]
    exact .inl ⟨fault, rfl, hlog⟩

/-- The output is flushed before every attempt to read. -/
theorem kept_flushed : Kept fun streams => Streams.Flushed streams.log where
  read := by
    refine Relator.keeping_iff.2 fun machine h => leaves_iff.2 ?_
    rcases log_of_readByte machine with ⟨fault, -, hlog⟩ | ⟨retried, reply, hlog, hretried⟩
    · rw [hlog]
      exact Streams.flushed_cons nofun h
    · rw [hlog]
      exact Streams.flushed_cons (fun _ _ => ⟨retried, _, rfl, hretried⟩) (Streams.flushed_retried hretried h)
  write value := perform_keeps fun _ => Streams.flushed_write value
  flush _ := Streams.flushed_flush

/-- The input of a byte into a cell, in the order of events. -/
theorem events_of_input (address : Nat) (machine : Machine) :
    (∃ fault, resultOf (applyBuiltin address .input machine) = .error (.fault (.stream fault)) ∧
      (after (applyBuiltin address .input machine)).streams.events = machine.streams.events ++ [.flush (.fault fault)]) ∨
    ∃ retried reply, (after (applyBuiltin address .input machine)).streams.events =
        machine.streams.events ++ .flush .done :: (retried ++ [.read reply]) ∧
      ∀ event ∈ retried, event = .read (.fault .interrupted) := by
  -- The byte is stored after it has been read, and the streams have no part in that.
  have hstore : ∀ value (mid : Machine), (after (store address value mid)).streams = mid.streams := by
    rintro value ⟨memory, streams, frames⟩
    unfold store
    dsimp only
    split <;> rfl
  have hstreams : (after (applyBuiltin address .input machine)).streams = (after (readByte machine)).streams := by
    change (after ((readByte >>= store address) machine)).streams = _
    cases hread : readByte machine with
    | ok value mid =>
      rw [Action.bind_of_ok hread, hstore]
      rfl
    | error stop mid =>
      rw [Action.bind_of_error hread]
      rfl
  rw [hstreams]
  rcases log_of_readByte machine with ⟨fault, hresult, hlog⟩ | ⟨retried, reply, hlog, hretried⟩
  · refine .inl ⟨fault, ?_, ?_⟩
    · change resultOf ((readByte >>= store address) machine) = _
      cases hread : readByte machine with
      | ok value mid =>
        rw [hread] at hresult
        cases hresult
      | error stop mid =>
        rw [Action.bind_of_error hread]
        rw [hread] at hresult
        exact congrArg Except.error (Except.error.inj hresult)
    · unfold Streams.events
      rw [hlog, List.reverse_cons]
  · refine .inr ⟨retried.reverse, reply, ?_, fun event hevent => hretried event (List.mem_reverse.1 hevent)⟩
    unfold Streams.events
    rw [hlog]
    simp

/-- The last flush comes after everything else, and it has the last word on the result. -/
theorem log_of_lastFlush {r : EStateM.Result Stop Machine Unit} (h : ¬Exhausted r) :
    ∃ reply, (after (lastFlush r)).streams.log = .flush reply :: (after r).streams.log ∧
      (reply = .done → resultOf (lastFlush r) = resultOf r) ∧
      ∀ fault, reply = .fault fault → resultOf (lastFlush r) = .error (.fault (.stream fault)) := by
  obtain ⟨reply, hlog, hreply⟩ := Streams.exists_log_flush (after r).streams
  refine ⟨reply, by rw [after_lastFlush h, streams_perform, hlog], ?_⟩
  rcases hreply with ⟨rfl, hflush⟩ | ⟨fault, rfl, hflush⟩
  · exact ⟨fun _ => resultOf_lastFlush (perform_of_ok (Prod.ext hflush rfl)), nofun⟩
  · have hfault : perform Streams.flush (after r) = .error (.fault (.stream fault)) _ := perform_of_error (Prod.ext hflush rfl)
    refine ⟨nofun, fun other heq => ?_⟩
    obtain rfl := FlushReply.fault.inj heq
    cases r with
    | ok _ machine => exact congrArg resultOf hfault
    | error stop machine =>
      cases stop with
      | outOfFuel => exact absurd trivial h
      | fault error =>
        change perform Streams.flush machine = _ at hfault
        unfold lastFlush
        dsimp only
        rw [hfault]
        rfl

theorem events_of_evaluateEntry (limits : Limits) (program : Program) (fuel : Nat) (machine : Machine) :
    ∃ recent, (after (evaluateEntry limits program fuel machine)).streams.events = machine.streams.events ++ recent := by
  have hlater : Later machine (after (evaluateEntry limits program fuel machine)) :=
    later_of_twins (fun start => passBody_twins program (.eq limits.dataSize) (fuel + 1) program.entry) machine
  obtain ⟨recent, hlog⟩ := hlater.log
  refine ⟨recent.reverse, ?_⟩
  unfold Streams.events
  rw [← hlog, List.reverse_append]

/-- Output that waits is flushed before input is waited for, whatever the streams answer: in a session, what precedes an attempt to read,
but for interrupted ones, is a flush that succeeds. A run that ends is flushed just once more, and has the result of its evaluation if
that succeeds. -/
theorem session_flushed (limits : Limits) (runs : List (Program × Nat)) (memory : Memory) (reads : List ReadReply)
    (writes : List WriteReply) (flushes : List FlushReply) :
    (∀ (address : Nat) (machine : Machine),
      let input := applyBuiltin address .input machine
      (∃ fault, resultOf input = .error (.fault (.stream fault)) ∧
        (after input).streams.events = machine.streams.events ++ [.flush (.fault fault)]) ∨
      ∃ (retried : List Event) (reply : ReadReply),
        (after input).streams.events = machine.streams.events ++ .flush .done :: (retried ++ [.read reply]) ∧
        ∀ event ∈ retried, event = .read (.fault .interrupted)) ∧
    ∀ episode ∈ session limits runs { memory, streams := { reads, writes, flushes } },
      let evaluation := evaluateEntry limits episode.program episode.fuel episode.before
      let events : List Event := (after episode.result).streams.events
      (∀ (earlier : List Event) (value : UInt8) (between : List Event) (reply : ReadReply) (later : List Event),
        events = earlier ++ .write value .accepted :: (between ++ .read reply :: later) → .flush .done ∈ between) ∧
      (∀ (before : List Event) (reply : ReadReply) (later : List Event), events = before ++ .read reply :: later →
        ∃ earlier retried : List Event, before = earlier ++ .flush .done :: retried ∧
          ∀ event ∈ retried, event = .read (.fault .interrupted)) ∧
      (∃ recent, (after evaluation).streams.events = episode.before.streams.events ++ recent) ∧
      (¬Exhausted episode.result → ∃ reply,
        events = (after evaluation).streams.events ++ [.flush reply] ∧
        (reply = .done → resultOf episode.result = resultOf evaluation) ∧
        ∀ fault, reply = .fault fault → resultOf episode.result = .error (.fault (.stream fault))) := by
  refine ⟨events_of_input, fun episode hmem => ?_⟩
  intro evaluation events
  have hresult : episode.result = lastFlush evaluation := (of_mem_session rfl hmem).2.trans (run_eq _ _)
  have hflushed : Streams.Flushed (after episode.result).streams.log :=
    kept_of_mem_session kept_flushed Streams.flushed_nil hmem
  -- The log has the events the other way round.
  have hready : ∀ before {reply later}, events = before ++ .read reply :: later → Streams.Ready before.reverse := by
    intro before reply later hevents
    refine hflushed later.reverse reply before.reverse ?_
    rw [← List.reverse_reverse (after episode.result).streams.log]
    change events.reverse = _
    simp [hevents]
  refine ⟨fun earlier value between reply later hevents => ?_, fun before reply later hevents => ?_, ?_, fun hended => ?_⟩
  · have h := hready (earlier ++ .write value .accepted :: between) (by simpa using hevents)
    have hdone : .flush .done ∈ between.reverse := Streams.mem_of_ready (by simpa using h)
    exact List.mem_reverse.1 hdone
  · obtain ⟨retried, earlier, heq, hretried⟩ := hready before hevents
    refine ⟨earlier.reverse, retried.reverse, ?_, fun event hevent => hretried event (List.mem_reverse.1 hevent)⟩
    rw [← List.reverse_reverse before, heq]
    simp
  · exact events_of_evaluateEntry limits episode.program episode.fuel episode.before
  · have hevaluation : ¬Exhausted evaluation := fun hexhausted => hended (hresult ▸ exhausted_lastFlush hexhausted)
    obtain ⟨reply, hlog, hdone, hfault⟩ := log_of_lastFlush hevaluation
    rw [← hresult] at hlog hdone hfault
    refine ⟨reply, ?_, hdone, hfault⟩
    change (after episode.result).streams.log.reverse = _
    rw [hlog, List.reverse_cons]
    rfl

/-- The program `[0 7 . ,]` writes seven and reads a byte. It is run twice; its first attempt to read is interrupted, and the last
flush of the first run fails, so the run fails although its evaluation has not. -/
theorem session_flushed_of_two_runs :
    let program : Program := ⟨[(entryName, [.opening .applicator, .literal 0, .literal 7, .builtin .output, .builtin .input,
      .closing .applicator])]⟩
    let flushes : List FlushReply := [.done, .fault (.failed "full")]
    let streams : Streams := { reads := [.fault .interrupted, .byte 5], writes := [], flushes }
    ∃ failed completed, session ⟨1, 1⟩ [(program, 9), (program, 9)] { memory := .zeroed 1, streams } = [failed, completed] ∧
      resultOf (evaluateEntry ⟨1, 1⟩ program 9 failed.before) = .ok () ∧
      resultOf failed.result = .error (.fault (.stream (.failed "full"))) ∧
      (after failed.result).streams.events =
        [.write 7 .accepted, .flush .done, .read (.fault .interrupted), .read (.byte 5), .flush (.fault (.failed "full"))] ∧
      resultOf completed.result = .ok () ∧
      (after completed.result).streams.events =
        (after failed.result).streams.events ++ [.write 7 .accepted, .flush .done, .read .nothing, .flush .done] := by
  intro program flushes streams
  let failed : Episode :=
    ⟨program, 9, { memory := .zeroed 1, streams }, run ⟨1, 1⟩ program 9 { memory := .zeroed 1, streams }⟩
  let completed : Episode := ⟨program, 9, after failed.result, run ⟨1, 1⟩ program 9 (after failed.result)⟩
  have hmem : failed ∈ session ⟨1, 1⟩ [(program, 9), (program, 9)] { memory := .zeroed 1, streams } := List.mem_cons_self
  obtain ⟨-, -, -, -, hlast⟩ := And.imp_right (fun h => h failed hmem)
    (session_flushed ⟨1, 1⟩ [(program, 9), (program, 9)] (.zeroed 1) [.fault .interrupted, .byte 5] [] flushes)
  obtain ⟨reply, hevents, -, hfault⟩ := hlast id
  obtain rfl : reply = .fault (.failed "full") := by
    have hreply := congrArg List.getLast? hevents
    rw [List.getLast?_append] at hreply
    exact (Event.flush.inj (Option.some.inj hreply)).symm
  exact ⟨failed, completed, rfl, rfl, hfault _ rfl, rfl, rfl, rfl⟩

end Machine

end Bracketry
