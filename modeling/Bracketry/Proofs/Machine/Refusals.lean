import Bracketry.Proofs.Machine.Interruptions

/-!
# Refused addresses

An operation looks at the cell of an address before it does anything, with one exception. An input reads first and looks at the cell
afterwards, so that it takes a byte from the input even where there is no cell for it.

* `Streams.answer` : the answer that a read comes to; `Streams.events_readFrom` : the attempts until then;
* `Machine.Access` : the operations that look at an address; `Machine.Access.cell?` is the cell that they need;
* `Machine.Lacks` : the memory has no such cell;
* `Machine.of_cell_refused`, `Machine.of_store_refused`, `Machine.of_readByte_eq_ok` : the effects that the operations are made of;
* `Machine.Access.of_refused` : what is as it was when an address has been refused, and what is not.
-/

namespace Bracketry

namespace Streams
variable {streams : Streams}

/-- The answer that a read comes to: the first one that is no interruption. -/
def answer (replies : List ReadReply) : ReadReply := (replies.find? (!·.isInterrupted)).getD .nothing

/-- The attempts of a read: those that are interrupted, and one more. -/
def attempts (replies : List ReadReply) : List Event :=
  (replies.takeWhile ReadReply.isInterrupted).map .read ++ [.read (answer replies)]

theorem events_note {after : Streams} (event : Event) (h : after.log = event :: streams.log) :
    after.events = streams.events ++ [event] := by
  unfold events
  rw [h, List.reverse_cons]

theorem events_readFrom (streams : Streams) (replies : List ReadReply) :
    (streams.readFrom replies).2.events = streams.events ++ attempts replies := by
  induction replies generalizing streams with
  | nil => exact events_note (.read .nothing) rfl
  | cons reply replies ih =>
    cases reply with
    | byte value => exact events_note (.read (.byte value)) rfl
    | nothing => exact events_note (.read .nothing) rfl
    | fault fault =>
      cases fault with
      | interrupted =>
        let noted := { streams with reads := replies, log := .read (.fault .interrupted) :: streams.log }
        refine (ih noted).trans ?_
        have hnoted : noted.events = streams.events ++ [.read (.fault .interrupted)] := events_note _ rfl
        rw [hnoted, List.append_assoc]
        rfl
      | _ => exact events_note (.read (.fault _)) rfl

theorem filterMap_byteRead?_attempts (replies : List ReadReply) :
    (attempts replies).filterMap Event.byteRead? = (answer replies).byte?.toList := by
  have hretried : ((replies.takeWhile ReadReply.isInterrupted).map Event.read).filterMap Event.byteRead? = [] := by
    refine List.filterMap_eq_nil_iff.2 fun event hevent => ?_
    obtain ⟨reply, hreply, rfl⟩ := List.mem_map.1 hevent
    have hinterrupted : (Event.read reply).isRetried = true := List.all_eq_true.1 List.all_takeWhile reply hreply
    exact byteRead?_of_isRetried hinterrupted
  rw [attempts, List.filterMap_append, hretried]
  cases answer replies <;> rfl

theorem filterMap_byteWritten?_attempts (replies : List ReadReply) : (attempts replies).filterMap Event.byteWritten? = [] := by
  refine List.filterMap_eq_nil_iff.2 fun event hevent => ?_
  rcases List.mem_append.1 hevent with hretried | hlast
  · obtain ⟨reply, -, rfl⟩ := List.mem_map.1 hretried
    rfl
  · rw [List.mem_singleton.1 hlast]
    rfl

/-- A flush comes before the attempts of an input, and neither of them is output. -/
theorem output_of_input {after : Streams} (h : after.events = streams.events ++ .flush .done :: attempts streams.reads) :
    after.output = streams.output := by
  unfold output
  rw [h, List.filterMap_append, List.filterMap_cons_none rfl, filterMap_byteWritten?_attempts, List.append_nil]

theorem taken_of_input {after : Streams} (h : after.events = streams.events ++ .flush .done :: attempts streams.reads) :
    after.taken = streams.taken ++ (answer streams.reads).byte?.toList := by
  unfold taken
  rw [h, List.filterMap_append, List.filterMap_cons_none rfl, filterMap_byteRead?_attempts]

end Streams

namespace Machine

/-- An operation that looks at an address, or at a number as an address. -/
inductive Access where
  | resolveAccessor (value : Int64)
  | applyBuiltin (address : Nat) (op : Builtin)
  | assign (address : Nat) (value : Int64)
  | resolve (address : Nat)
  | testLoop (address : Nat)

namespace Access

def perform (backend : Backend Machine Int64 Nat) : Access → Action Machine Unit
  | .resolveAccessor value => discard (backend.resolveAccessor value)
  | .applyBuiltin address op => backend.applyBuiltin address op
  | .assign address value => backend.assign address value
  | .resolve address => discard (backend.resolve address)
  | .testLoop address => discard (backend.testLoop address)

def cell? : Access → Option Nat
  | .resolveAccessor _ | .applyBuiltin _ .nop => none
  | .applyBuiltin address _ | .assign address _ | .resolve address | .testLoop address => some address

def IsInput : Access → Prop
  | .applyBuiltin _ .input => True
  | _ => False

end Access

/-- The memory has no cell at the address, which errors show as the number. -/
def Lacks (machine : Machine) (address : Nat) (value : Int64) : Prop := machine.memory.size ≤ address ∧ value = shown address

section
variable {address : Nat} {machine mid refused : Machine} {value : Int64} {byte : UInt8}

/-! ## Effects -/

theorem of_cell_refused (h : cell address machine = .error (.fault (.addressOutOfRange value)) refused) :
    refused = machine ∧ machine.Lacks address value := by
  unfold cell at h
  split at h
  · cases h
  · next hget =>
    cases h
    exact ⟨rfl, (machine.memory.get?_eq_none_iff address).1 hget, rfl⟩

theorem of_store_refused (h : store address byte machine = .error (.fault (.addressOutOfRange value)) refused) :
    refused = machine ∧ machine.Lacks address value := by
  by_cases hsize : address < machine.memory.size
  · rw [store_eq hsize] at h
    cases h
  · obtain ⟨memory, streams, frames⟩ := machine
    unfold store at h
    dsimp only at h hsize
    rw [if_neg hsize] at h
    cases h
    exact ⟨rfl, Nat.le_of_not_lt hsize, rfl⟩

/-- What looks at a cell first is refused there or goes on with the machine as it is. -/
theorem of_cell_bind_refused {α : Type} {f : UInt8 → Action Machine α}
    (h : (cell address >>= f) machine = .error (.fault (.addressOutOfRange value)) refused) :
    refused = machine ∧ machine.Lacks address value ∨
      ∃ byte, f byte machine = .error (.fault (.addressOutOfRange value)) refused := by
  rcases Action.of_bind_eq_error h with hcell | ⟨byte, mid, hcell, hrest⟩
  · exact .inl (of_cell_refused hcell)
  · exact .inr ⟨byte, eq_of_cell hcell ▸ hrest⟩

theorem of_perform_eq_ok {α : Type} {operation : Streams → Except StreamFault α × Streams} {a : α}
    (h : perform operation machine = .ok a mid) :
    operation machine.streams = (.ok a, mid.streams) ∧ mid = { machine with streams := mid.streams } := by
  cases hoperation : operation machine.streams with
  | mk result streams =>
    cases result with
    | ok b =>
      rw [perform_of_ok hoperation] at h
      cases h
      exact ⟨rfl, rfl⟩
    | error fault =>
      rw [perform_of_error hoperation] at h
      cases h

theorem not_perform_refused {α : Type} {operation : Streams → Except StreamFault α × Streams} :
    perform operation machine ≠ .error (.fault (.addressOutOfRange value)) refused := by
  intro h
  obtain ⟨fault, hstop⟩ := stop_of_perform h
  cases hstop

/-- Where a byte has been read, the output has been flushed, and nothing but the streams has changed. -/
theorem of_readByte_eq_ok (h : readByte machine = .ok byte mid) :
    mid = { machine with streams := mid.streams } ∧
      mid.streams.events = machine.streams.events ++ .flush .done :: Streams.attempts machine.streams.reads := by
  obtain ⟨_, flushed, hflush, hread⟩ := Action.of_bind_eq_ok h
  obtain ⟨hflush, hflushed⟩ := of_perform_eq_ok hflush
  obtain ⟨hread, hmid⟩ := of_perform_eq_ok hread
  refine ⟨by rw [hmid, hflushed], ?_⟩
  obtain ⟨reply, hlog, hreply⟩ := Streams.exists_log_flush machine.streams
  rw [hflush] at hlog hreply
  obtain ⟨rfl, -⟩ | ⟨fault, -, hfault⟩ := hreply
  · have hreads : flushed.streams.reads = machine.streams.reads := by
      simpa only [hflush] using Streams.reads_flush machine.streams
    have hevents := Streams.events_readFrom flushed.streams flushed.streams.reads
    rw [← Streams.read, hread, Streams.events_note _ hlog, hreads, List.append_assoc] at hevents
    exact hevents
  · cases hfault

/-! ## Operations -/

/-- A builtin that looks at its cell first. -/
theorem of_applyBuiltin_refused {op : Builtin} (hop : op ≠ .input)
    (h : applyBuiltin address op machine = .error (.fault (.addressOutOfRange value)) refused) :
    refused = machine ∧ machine.Lacks address value := by
  cases op with
  | increment => exact (of_cell_bind_refused h).elim id fun ⟨_, hstore⟩ => of_store_refused hstore
  | decrement => exact (of_cell_bind_refused h).elim id fun ⟨_, hstore⟩ => of_store_refused hstore
  | output => exact (of_cell_bind_refused h).elim id fun ⟨_, hwrite⟩ => absurd hwrite not_perform_refused
  | input => exact absurd rfl hop
  | nop => cases h

/-- An input has read before it looks at its cell. -/
theorem of_input_refused (h : applyBuiltin address .input machine = .error (.fault (.addressOutOfRange value)) refused) :
    refused = { machine with streams := refused.streams } ∧ machine.Lacks address value ∧
      refused.streams.events = machine.streams.events ++ .flush .done :: Streams.attempts machine.streams.reads := by
  rcases Action.of_bind_eq_error h with hread | ⟨byte, mid, hread, hstore⟩
  · rcases Action.of_bind_eq_error hread with hflush | ⟨_, _, -, hread⟩
    · exact absurd hflush not_perform_refused
    · exact absurd hread not_perform_refused
  · obtain ⟨rfl, hsize, hvalue⟩ := of_store_refused hstore
    obtain ⟨hmid, hevents⟩ := of_readByte_eq_ok hread
    rw [hmid] at hsize
    exact ⟨hmid, ⟨hsize, hvalue⟩, hevents⟩

theorem of_discard_eq_error {α : Type} {action : Action Machine α} {stop : Stop}
    (h : (discard action) machine = .error stop refused) : action machine = .error stop refused := by
  change EStateM.map _ action machine = _ at h
  cases haction : action machine with
  | ok a mid =>
    rw [EStateM.map, haction] at h
    cases h
  | error other mid =>
    rw [EStateM.map, haction] at h
    cases h
    rfl

end

namespace Access
variable {access : Access} {limits : Limits} {program : Program} {fuel : Nat} {machine refused : Machine} {value : Int64}

/-- An operation other than an input changes nothing when an address is refused. -/
theorem eq_of_refused (hinput : ¬access.IsInput)
    (h : access.perform (backend limits program fuel) machine = .error (.fault (.addressOutOfRange value)) refused) :
    refused = machine ∧ ∀ address ∈ access.cell?, machine.Lacks address value := by
  rw [backend_eq] at h
  cases access with
  | resolveAccessor number =>
    have hresolve : Action.ofExcept (limits.checkAddress number) machine = _ := of_discard_eq_error h
    cases hcheck : limits.checkAddress number with
    | ok address => rw [hcheck] at hresolve; cases hresolve
    | error error =>
      rw [hcheck] at hresolve
      exact ⟨(EStateM.Result.error.inj hresolve).2.symm, nofun⟩
  | applyBuiltin address op =>
    have hop : op ≠ .input := by
      rintro rfl
      exact hinput trivial
    obtain ⟨heq, hlacks⟩ := of_applyBuiltin_refused hop h
    refine ⟨heq, fun other hother => ?_⟩
    cases op with
    | nop => cases hother
    | _ => exact Option.some.inj hother ▸ hlacks
  | assign address number =>
    obtain ⟨heq, hlacks⟩ := of_store_refused h
    exact ⟨heq, by simpa [cell?] using hlacks⟩
  | resolve address =>
    obtain ⟨heq, hlacks⟩ := (of_cell_bind_refused (of_discard_eq_error h)).resolve_right nofun
    exact ⟨heq, by simpa [cell?] using hlacks⟩
  | testLoop address =>
    obtain ⟨heq, hlacks⟩ := (of_cell_bind_refused (of_discard_eq_error h)).resolve_right nofun
    exact ⟨heq, by simpa [cell?] using hlacks⟩

/-- A refused address leaves the memory, the output and the active applications as they were, and, unless a byte was to be read, all of
the machine. An input has flushed the output and taken what there was to be read; so the address is refused without any effect unless
the operation is an input and a byte was there. -/
theorem of_refused
    (h : access.perform (backend limits program fuel) machine = .error (.fault (.addressOutOfRange value)) refused) :
    (∀ address ∈ access.cell?, machine.memory.size ≤ address ∧ value = shown address) ∧
    refused.memory = machine.memory ∧ refused.frames = machine.frames ∧ refused.streams.output = machine.streams.output ∧
    (¬access.IsInput → refused = machine) ∧
    (access.IsInput →
      refused.streams.events = machine.streams.events ++ .flush .done :: Streams.attempts machine.streams.reads ∧
      refused.streams.consumed = machine.streams.consumed + (Streams.answer machine.streams.reads).byte?.toList.length) ∧
    (refused.streams.consumed = machine.streams.consumed ↔
      ¬(access.IsInput ∧ ∃ byte, Streams.answer machine.streams.reads = .byte byte)) := by
  by_cases hinput : access.IsInput
  · obtain ⟨address, rfl⟩ : ∃ address, access = .applyBuiltin address .input := by
      cases access with
      | applyBuiltin address op => cases op <;> first | exact ⟨address, rfl⟩ | cases hinput
      | _ => cases hinput
    rw [backend_eq] at h
    obtain ⟨heq, hlacks, hevents⟩ := of_input_refused h
    have hconsumed : refused.streams.consumed =
        machine.streams.consumed + (Streams.answer machine.streams.reads).byte?.toList.length :=
      (congrArg List.length (Streams.taken_of_input hevents)).trans List.length_append
    refine ⟨by simpa [cell?, Lacks] using hlacks, by rw [heq], by rw [heq], Streams.output_of_input hevents,
      fun hother => absurd hinput hother, fun _ => ⟨hevents, hconsumed⟩, ?_⟩
    rw [hconsumed]
    cases hanswer : Streams.answer machine.streams.reads <;> simp [ReadReply.byte?, hinput]
  · obtain ⟨rfl, hlacks⟩ := eq_of_refused hinput h
    exact ⟨hlacks, rfl, rfl, rfl, fun _ => rfl, fun h => absurd h hinput, by simp [hinput]⟩

/-- On four cells, the input of a byte into the eighth cell is refused after the byte has been taken. -/
theorem of_refused_of_missing_cell :
    ∃ refused,
      (Access.applyBuiltin 7 .input).perform (backend {} (.ofEntry []) 0)
        { memory := .zeroed 4, streams := .ofInput [65] } = .error (.fault (.addressOutOfRange 7)) refused ∧
      refused.memory = .zeroed 4 ∧ refused.streams.output = [] ∧ refused.frames = #[] ∧
      refused.streams.events = [.flush .done, .read (.byte 65)] ∧ refused.streams.consumed = 1 := by
  have hrefused : (Access.applyBuiltin 7 .input).perform (backend {} (.ofEntry []) 0)
      { memory := .zeroed 4, streams := .ofInput [65] } = .error (.fault (.addressOutOfRange 7)) _ := rfl
  obtain ⟨-, hmemory, hframes, houtput, -, hread, -⟩ := of_refused hrefused
  exact ⟨_, hrefused, hmemory, houtput, hframes, hread trivial⟩

/-- So not every refused address leaves the input alone. -/
theorem not_unread_of_refused :
    ¬∀ (access : Access) (limits : Limits) (program : Program) (fuel : Nat) (machine refused : Machine) (value : Int64),
      access.perform (backend limits program fuel) machine = .error (.fault (.addressOutOfRange value)) refused →
      refused.memory = machine.memory ∧ refused.streams.output = machine.streams.output ∧
        refused.streams.consumed = machine.streams.consumed ∧ refused.frames = machine.frames := by
  intro hall
  obtain ⟨-, -, hconsumed, -⟩ := hall (.applyBuiltin 7 .input) {} (.ofEntry []) 0
    { memory := .zeroed 4, streams := .ofInput [65] } _ 7 rfl
  exact absurd hconsumed (by decide)

end Access

end Machine

end Bracketry
