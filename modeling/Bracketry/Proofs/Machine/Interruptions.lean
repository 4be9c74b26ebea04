import Bracketry.Proofs.Machine.Flushing

/-!
# Interrupted reads and writes

A read or a write that is interrupted is tried again at once, so a program does not see it. A flush that is interrupted fails, and
stays where it is.

* `ReadReply.isInterrupted`, `WriteReply.isInterrupted`, `Event.isRetried` : what is tried again;
* `Streams.calmed` : the streams without any of it, in what is to come and in what has been;
* `Streams.flush_calmed`, `Streams.read_calmed`, `Streams.write_calmed` : each operation does the same on both;
* `Machine.calmed_respects`, `Machine.run_calmed` : so do a body and a whole program;
* `Streams.taken` : the bytes that have been read; `Streams.Whole` : those and the bytes to come are the bytes that were given;
* `Machine.session_calmed` : programs one after the other.
-/

namespace Bracketry

def ReadReply.isInterrupted : ReadReply → Bool
  | .fault .interrupted => true
  | _ => false

def WriteReply.isInterrupted : WriteReply → Bool
  | .fault .interrupted => true
  | _ => false

/-- An attempt to read or to write that was made again. -/
def Event.isRetried : Event → Bool
  | .read reply => reply.isInterrupted
  | .write _ reply => reply.isInterrupted
  | .flush _ => false

def ReadReply.byte? : ReadReply → Option UInt8
  | .byte value => some value
  | _ => none

namespace Streams
variable {streams : Streams}

/-- The streams without interrupted reads and writes. -/
def calmed (streams : Streams) : Streams where
  reads := streams.reads.filter (!·.isInterrupted)
  writes := streams.writes.filter (!·.isInterrupted)
  flushes := streams.flushes
  log := streams.log.filter (!·.isRetried)

/-! ## Operations -/

theorem flush_calmed (streams : Streams) : streams.calmed.flush = (streams.flush.1, streams.flush.2.calmed) := by
  obtain ⟨reads, writes, flushes, log⟩ := streams
  cases flushes <;> rfl

theorem readFrom_with_reads (streams : Streams) (reads replies : List ReadReply) :
    { streams with reads }.readFrom replies = streams.readFrom replies := by
  cases replies <;> rfl

theorem readFrom_calmed (streams : Streams) (replies : List ReadReply) :
    streams.calmed.readFrom (replies.filter (!·.isInterrupted)) =
      ((streams.readFrom replies).1, (streams.readFrom replies).2.calmed) := by
  induction replies generalizing streams with
  | nil => rfl
  | cons reply replies ih =>
    cases reply with
    | byte value => rfl
    | nothing => rfl
    | fault fault =>
      cases fault with
      | interrupted =>
        refine Eq.trans ?_ (ih { streams with reads := replies, log := .read (.fault .interrupted) :: streams.log })
        exact (readFrom_with_reads streams.calmed _ _).symm
      | _ => rfl

theorem read_calmed (streams : Streams) : streams.calmed.read = (streams.read.1, streams.read.2.calmed) :=
  readFrom_calmed streams streams.reads

theorem writeFrom_with_writes (streams : Streams) (value : UInt8) (writes replies : List WriteReply) :
    writeFrom value { streams with writes } replies = writeFrom value streams replies := by
  cases replies <;> rfl

theorem writeFrom_calmed (streams : Streams) (value : UInt8) (replies : List WriteReply) :
    writeFrom value streams.calmed (replies.filter (!·.isInterrupted)) =
      ((writeFrom value streams replies).1, (writeFrom value streams replies).2.calmed) := by
  induction replies generalizing streams with
  | nil => rfl
  | cons reply replies ih =>
    cases reply with
    | accepted => rfl
    | nothing => rfl
    | fault fault =>
      cases fault with
      | interrupted =>
        refine Eq.trans ?_ (ih { streams with writes := replies, log := .write value (.fault .interrupted) :: streams.log })
        exact (writeFrom_with_writes streams.calmed value _ _).symm
      | _ => rfl

theorem write_calmed (streams : Streams) (value : UInt8) :
    streams.calmed.write value = ((streams.write value).1, (streams.write value).2.calmed) :=
  writeFrom_calmed streams value streams.writes

/-! ## Bytes -/

def taken (streams : Streams) : List UInt8 := streams.events.filterMap Event.byteRead?

theorem events_calmed (streams : Streams) : streams.calmed.events = streams.events.filter (!·.isRetried) :=
  List.filter_reverse.symm

/-- An attempt that is made again has neither read nor written anything. -/
theorem bytes_filter {f : Event → Option UInt8} (h : ∀ event : Event, event.isRetried = true → f event = none)
    (events : List Event) : (events.filter (!·.isRetried)).filterMap f = events.filterMap f := by
  rw [List.filterMap_filter]
  refine List.filterMap_congr fun event _ => ?_
  cases hretried : event.isRetried with
  | false => rfl
  | true => exact (h event hretried).symm

theorem byteRead?_of_isRetried {event : Event} (h : event.isRetried = true) : event.byteRead? = none := by
  cases event with
  | read reply => cases reply <;> first | rfl | cases h
  | _ => rfl

theorem byteWritten?_of_isRetried {event : Event} (h : event.isRetried = true) : event.byteWritten? = none := by
  cases event with
  | write value reply => cases reply <;> first | rfl | cases h
  | _ => rfl

theorem output_calmed (streams : Streams) : streams.calmed.output = streams.output := by
  unfold output
  rw [events_calmed, bytes_filter fun _ => byteWritten?_of_isRetried]

theorem taken_calmed (streams : Streams) : streams.calmed.taken = streams.taken := by
  unfold taken
  rw [events_calmed, bytes_filter fun _ => byteRead?_of_isRetried]

theorem taken_note {after : Streams} (event : Event) (h : after.log = event :: streams.log) :
    after.taken = streams.taken ++ event.byteRead?.toList := by
  unfold taken events
  rw [h, List.reverse_cons, List.filterMap_append]
  cases hbyte : event.byteRead? <;> simp [hbyte]

/-- A write that succeeds adds its byte, and one that fails adds nothing. An interruption is no failure. -/
theorem output_writeFrom (streams : Streams) (value : UInt8) (replies : List WriteReply) :
    (writeFrom value streams replies).1 = .ok () ∧ (writeFrom value streams replies).2.output = streams.output ++ [value] ∨
      ∃ fault, (writeFrom value streams replies).1 = .error fault ∧ fault ≠ .interrupted ∧
        (writeFrom value streams replies).2.output = streams.output := by
  have hfailed : ∀ {streams after : Streams} (fault : StreamFault),
      after.log = .write value (.fault fault) :: streams.log → after.output = streams.output :=
    fun fault hlog => (output_note (.write value (.fault fault)) hlog).trans (List.append_nil _)
  induction replies generalizing streams with
  | nil => exact .inl ⟨rfl, output_note (.write value .accepted) rfl⟩
  | cons reply replies ih =>
    cases reply with
    | accepted => exact .inl ⟨rfl, output_note (.write value .accepted) rfl⟩
    | nothing =>
      exact .inr ⟨.nothingWritten, rfl, nofun, (output_note (.write value .nothing) rfl).trans (List.append_nil _)⟩
    | fault fault =>
      cases fault with
      | interrupted =>
        let noted := { streams with writes := replies, log := .write value (.fault .interrupted) :: streams.log }
        have hnoted : noted.output = streams.output := hfailed .interrupted rfl
        rw [← hnoted]
        exact ih noted
      | _ => exact .inr ⟨_, rfl, nofun, hfailed _ rfl⟩

/-- A read that succeeds takes one byte and gives it, or takes none and gives zero. One that fails takes nothing. -/
theorem taken_readFrom (streams : Streams) (replies : List ReadReply) :
    (∃ value, (streams.readFrom replies).1 = .ok value ∧
      ((streams.readFrom replies).2.taken = streams.taken ++ [value] ∨
        value = 0 ∧ (streams.readFrom replies).2.taken = streams.taken)) ∨
    ∃ fault, (streams.readFrom replies).1 = .error fault ∧ fault ≠ .interrupted ∧
      (streams.readFrom replies).2.taken = streams.taken := by
  have hnone : ∀ {streams after : Streams} (reply : ReadReply), (Event.read reply).byteRead? = none →
      after.log = .read reply :: streams.log → after.taken = streams.taken := by
    intro streams after reply hreply hlog
    rw [taken_note _ hlog, hreply]
    exact List.append_nil _
  induction replies generalizing streams with
  | nil => exact .inl ⟨0, rfl, .inr ⟨rfl, hnone .nothing rfl rfl⟩⟩
  | cons reply replies ih =>
    cases reply with
    | byte value => exact .inl ⟨value, rfl, .inl (taken_note (.read (.byte value)) rfl)⟩
    | nothing => exact .inl ⟨0, rfl, .inr ⟨rfl, hnone .nothing rfl rfl⟩⟩
    | fault fault =>
      cases fault with
      | interrupted =>
        let noted := { streams with reads := replies, log := .read (.fault .interrupted) :: streams.log }
        have hnoted : noted.taken = streams.taken := hnone (.fault .interrupted) rfl rfl
        rw [← hnoted]
        exact ih noted
      | unexpectedEnd => exact .inl ⟨0, rfl, .inr ⟨rfl, hnone (.fault .unexpectedEnd) rfl rfl⟩⟩
      | _ => exact .inr ⟨_, rfl, nofun, hnone (.fault _) rfl rfl⟩

/-- The bytes that have been read and those that are still to come are the bytes that were given, each of them once. -/
def Whole (given : List UInt8) (streams : Streams) : Prop := streams.taken ++ streams.reads.filterMap ReadReply.byte? = given

theorem whole_readFrom {given : List UInt8} (streams : Streams) (replies : List ReadReply)
    (h : streams.taken ++ replies.filterMap ReadReply.byte? = given) : Whole given (streams.readFrom replies).2 := by
  induction replies generalizing streams with
  | nil => exact (congrArg (· ++ []) (taken_note (.read .nothing) rfl)).trans (by simpa [Event.byteRead?] using h)
  | cons reply replies ih =>
    have hnoted : ∀ {after : Streams}, after.log = .read reply :: streams.log →
        after.taken ++ replies.filterMap ReadReply.byte? = given := by
      intro after hlog
      rw [taken_note _ hlog, ← h, List.append_assoc]
      cases reply <;> rfl
    cases reply with
    | byte value => exact hnoted rfl
    | nothing => exact hnoted rfl
    | fault fault =>
      cases fault with
      | interrupted => exact ih _ (hnoted rfl)
      | _ => exact hnoted rfl

theorem whole_note {given : List UInt8} {after : Streams} (event : Event) (hlog : after.log = event :: streams.log)
    (hreads : after.reads = streams.reads) (hevent : event.byteRead? = none) (h : Whole given streams) : Whole given after := by
  unfold Whole
  rw [taken_note event hlog, hevent, hreads, ← h]
  exact congrArg (· ++ _) (List.append_nil _)

theorem taken_flush (streams : Streams) : streams.flush.2.taken = streams.taken := by
  unfold flush
  cases streams.flushes with
  | nil => exact (taken_note (.flush .done) rfl).trans (List.append_nil _)
  | cons reply flushes => exact (taken_note (.flush reply) rfl).trans (List.append_nil _)

theorem reads_flush (streams : Streams) : streams.flush.2.reads = streams.reads := by
  unfold flush
  cases streams.flushes <;> rfl

theorem whole_flush {given : List UInt8} (h : Whole given streams) : Whole given streams.flush.2 := by
  unfold Whole
  rw [taken_flush, reads_flush]
  exact h

theorem whole_writeFrom {given : List UInt8} (value : UInt8) (replies : List WriteReply) (h : Whole given streams) :
    Whole given (writeFrom value streams replies).2 := by
  induction replies generalizing streams with
  | nil => exact whole_note (.write value .accepted) rfl rfl rfl h
  | cons reply replies ih =>
    cases reply with
    | accepted => exact whole_note (.write value .accepted) rfl rfl rfl h
    | nothing => exact whole_note (.write value .nothing) rfl rfl rfl h
    | fault fault =>
      cases fault with
      | interrupted => exact ih (whole_note (.write value (.fault .interrupted)) rfl rfl rfl h)
      | _ => exact whole_note (.write value (.fault _)) rfl rfl rfl h

end Streams

namespace Machine
variable {limits : Limits} {program : Program}

/-! ## Programs -/

def calmed (machine : Machine) : Machine := { machine with streams := machine.streams.calmed }

/-- Two machines of which the second is the first without interrupted reads and writes, as a relator. -/
abbrev calming : Relator Machine Machine := pairs Eq fun streams streams' => streams' = streams.calmed

theorem eq_calmed_of_paired {machine machine' : Machine}
    (h : Paired Eq (fun streams streams' => streams' = streams.calmed) machine machine') : machine' = machine.calmed := by
  obtain ⟨memory, streams, frames⟩ := machine
  obtain ⟨memory', streams', frames'⟩ := machine'
  obtain ⟨hmemory, hstreams, hframes⟩ := h
  obtain rfl : memory = memory' := hmemory
  obtain rfl : streams' = streams.calmed := hstreams
  obtain rfl : frames = frames' := hframes
  rfl

theorem flush_calming : calming.Rel Eq (perform Streams.flush) (perform Streams.flush) := by
  refine perform_pairs fun {streams streams'} h => ?_
  rw [h, Streams.flush_calmed]
  exact ⟨rfl, rfl⟩

theorem calmed_respects : Respects calming limits limits program (· < limits.dataSize) := by
  have hread : calming.Rel Eq (perform Streams.read) (perform Streams.read) := by
    refine perform_pairs fun {streams streams'} h => ?_
    rw [h, Streams.read_calmed]
    exact ⟨rfl, rfl⟩
  refine pairs_respects (.eq _) (Relator.bind_eq _ flush_calming fun _ => hread) fun value => ?_
  refine perform_pairs fun {streams streams'} h => ?_
  rw [h, Streams.write_calmed]
  exact ⟨rfl, rfl⟩

/-- A program ends without interruptions as it does with them, and leaves the machine without them. -/
theorem run_calmed (limits : Limits) (program : Program) (fuel : Nat) (machine : Machine) :
    resultOf (run limits program fuel machine.calmed) = resultOf (run limits program fuel machine) ∧
      after (run limits program fuel machine.calmed) = (after (run limits program fuel machine)).calmed := by
  obtain ⟨hresult, hpaired⟩ :=
    resultOf_eq_of_abreast (run_abreast calmed_respects flush_calming fuel machine machine.calmed ⟨rfl, rfl, rfl⟩)
  exact ⟨hresult.symm, eq_calmed_of_paired hpaired⟩

theorem kept_whole (given : List UInt8) : Kept (Streams.Whole given) where
  read := Relator.bind_eq _ (perform_keeps fun _ => Streams.whole_flush) fun _ =>
    perform_keeps fun streams h => streams.whole_readFrom streams.reads h
  write value := perform_keeps fun streams => Streams.whole_writeFrom value streams.writes
  flush _ := Streams.whole_flush

theorem session_forall₂ (limits : Limits) (runs : List (Program × Nat)) (machine : Machine) :
    List.Forall₂
      (fun episode calm => resultOf calm.result = resultOf episode.result ∧ after calm.result = (after episode.result).calmed)
      (session limits runs machine) (session limits runs machine.calmed) := by
  induction runs generalizing machine with
  | nil => exact .nil
  | cons first runs ih =>
    obtain ⟨hresult, hafter⟩ := run_calmed limits first.1 first.2 machine
    refine .cons ⟨hresult, hafter⟩ ?_
    rw [hafter]
    exact ih _

theorem resultOf_perform {α : Type} (operation : Streams → Except StreamFault α × Streams) (machine : Machine) :
    resultOf (perform operation machine) = (operation machine.streams).1.mapError fun fault => .fault (.stream fault) := by
  cases hoperation : operation machine.streams with
  | mk result streams =>
    cases result with
    | ok a => rw [perform_of_ok hoperation]; rfl
    | error fault => rw [perform_of_error hoperation]; rfl

theorem output_writeByte (machine : Machine) (value : UInt8) :
    resultOf (writeByte value machine) = .ok () ∧
        (after (writeByte value machine)).streams.output = machine.streams.output ++ [value] ∨
      ∃ fault, resultOf (writeByte value machine) = .error (.fault (.stream fault)) ∧ fault ≠ .interrupted ∧
        (after (writeByte value machine)).streams.output = machine.streams.output := by
  unfold writeByte
  rw [resultOf_perform, streams_perform]
  rcases machine.streams.output_writeFrom value machine.streams.writes with ⟨hresult, houtput⟩ | ⟨fault, hresult, hfault, houtput⟩
  · exact .inl ⟨congrArg (Except.mapError _) hresult, houtput⟩
  · exact .inr ⟨fault, congrArg (Except.mapError _) hresult, hfault, houtput⟩

theorem taken_readByte (machine : Machine) :
    (∃ value, resultOf (readByte machine) = .ok value ∧
      ((after (readByte machine)).streams.taken = machine.streams.taken ++ [value] ∨
        value = 0 ∧ (after (readByte machine)).streams.taken = machine.streams.taken)) ∨
    ∃ fault, resultOf (readByte machine) = .error (.fault (.stream fault)) ∧
      (after (readByte machine)).streams.taken = machine.streams.taken := by
  unfold readByte
  have htaken := machine.streams.taken_flush
  cases hflush : machine.streams.flush with
  | mk result streams =>
    rw [hflush] at htaken
    cases result with
    | error fault =>
      rw [Action.bind_of_error (perform_of_error hflush)]
      exact .inr ⟨fault, rfl, htaken⟩
    | ok _ =>
      rw [Action.bind_of_ok (perform_of_ok hflush), resultOf_perform, streams_perform]
      rw [← htaken]
      rcases streams.taken_readFrom streams.reads with ⟨value, hresult, hread⟩ | ⟨fault, hresult, -, hread⟩
      · exact .inl ⟨value, congrArg (Except.mapError _) hresult, hread⟩
      · exact .inr ⟨fault, congrArg (Except.mapError _) hresult, hread⟩

/-- Interrupted reads and writes are invisible: without them every run of a session has the same result, memory, output and input, and the
same events but for the attempts that were interrupted. However they fall, no byte of the input is lost or read twice, and an output adds
its byte once or fails. -/
theorem session_calmed (limits : Limits) (runs : List (Program × Nat)) (memory : Memory) (reads : List ReadReply)
    (writes : List WriteReply) (flushes : List FlushReply) :
    let interrupted := session limits runs { memory, streams := { reads, writes, flushes } }
    let calm := session limits runs { memory, streams :=
      { reads := reads.filter (!·.isInterrupted), writes := writes.filter (!·.isInterrupted), flushes } }
    List.Forall₂
      (fun episode episode' =>
        let left := after episode.result
        let left' := after episode'.result
        resultOf episode'.result = resultOf episode.result ∧ left'.memory = left.memory ∧
          left'.streams.events = left.streams.events.filter (!·.isRetried) ∧
          left'.streams.output = left.streams.output ∧ left'.streams.taken = left.streams.taken)
      interrupted calm ∧
    (∀ episode ∈ interrupted,
      let left := (after episode.result).streams
      left.taken ++ left.reads.filterMap ReadReply.byte? = reads.filterMap ReadReply.byte?) ∧
    ∀ machine : Machine,
      (∀ value,
        let written := writeByte value machine
        resultOf written = .ok () ∧ (after written).streams.output = machine.streams.output ++ [value] ∨
          ∃ fault, resultOf written = .error (.fault (.stream fault)) ∧ fault ≠ .interrupted ∧
            (after written).streams.output = machine.streams.output) ∧
      let read := readByte machine
      (∃ value, resultOf read = .ok value ∧
        ((after read).streams.taken = machine.streams.taken ++ [value] ∨
          value = 0 ∧ (after read).streams.taken = machine.streams.taken)) ∨
      ∃ fault, resultOf read = .error (.fault (.stream fault)) ∧ (after read).streams.taken = machine.streams.taken := by
  intro interrupted calm
  refine ⟨?_, fun episode hmem => ?_, fun machine => ⟨machine.output_writeByte, machine.taken_readByte⟩⟩
  · refine (session_forall₂ limits runs { memory, streams := { reads, writes, flushes } }).imp ?_
    rintro episode episode' ⟨hresult, hafter⟩
    rw [hafter]
    exact ⟨hresult, rfl, Streams.events_calmed _, Streams.output_calmed _, Streams.taken_calmed _⟩
  · have hgiven : Streams.Whole (reads.filterMap ReadReply.byte?) { reads, writes, flushes } := rfl
    exact kept_of_mem_session (kept_whole _) hgiven hmem

/-- `[0 , . , .]` is interrupted while it reads and while it writes, and once more before its input turns out to have run dry. -/
theorem session_calmed_of_dry_input :
    let program : Program := .ofEntry [.opening .applicator, .literal 0, .builtin .input, .builtin .output, .builtin .input,
      .builtin .output, .closing .applicator]
    let reads : List ReadReply := [.fault .interrupted, .byte 7, .fault .interrupted]
    let interrupted := run ⟨1, 0⟩ program 9 { memory := .zeroed 1, streams := { reads, writes := [.fault .interrupted] } }
    let calm := run ⟨1, 0⟩ program 9 { memory := .zeroed 1, streams := { reads := [.byte 7] } }
    (after interrupted).streams.events =
      [.flush .done, .read (.fault .interrupted), .read (.byte 7), .write 7 (.fault .interrupted), .write 7 .accepted,
        .flush .done, .read (.fault .interrupted), .read .nothing, .write 0 .accepted, .flush .done] ∧
    resultOf calm = resultOf interrupted ∧ (after calm).streams.events =
      [.flush .done, .read (.byte 7), .write 7 .accepted, .flush .done, .read .nothing, .write 0 .accepted, .flush .done] := by
  intro program reads interrupted calm
  have hinterrupted : (after interrupted).streams.events =
      [.flush .done, .read (.fault .interrupted), .read (.byte 7), .write 7 (.fault .interrupted), .write 7 .accepted,
        .flush .done, .read (.fault .interrupted), .read .nothing, .write 0 .accepted, .flush .done] := by decide +kernel
  obtain ⟨hcalmed, -⟩ := session_calmed ⟨1, 0⟩ [(program, 9)] (.zeroed 1) reads [.fault .interrupted] []
  have hreads : reads.filter (!·.isInterrupted) = [.byte 7] := rfl
  have hwrites : [WriteReply.fault .interrupted].filter (!·.isInterrupted) = [] := rfl
  rw [hreads, hwrites] at hcalmed
  obtain ⟨⟨hresult, -, hevents, -⟩, -⟩ := List.forall₂_cons.1 hcalmed
  replace hevents : (after calm).streams.events = (after interrupted).streams.events.filter (!·.isRetried) := hevents
  rw [hinterrupted] at hevents
  exact ⟨hinterrupted, hresult, hevents.trans rfl⟩

end Machine

end Bracketry
