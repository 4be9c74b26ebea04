import Bracketry.Proofs.Machine.Respects

/-!
# Twin machines

Two machines whose memories a program cannot tell apart, and whose streams have the same answers to come, go through a program side
by side: with the same result, the same attempts on the streams, and memories that cannot be told apart in the end.

* `Streams.Since` : what two streams with the same answers to come have become after the same attempts;
* `Memory.Divided` : memories that agree below an address and keep what is above it;
* `Machine.Twin` : machines with indistinct memories and such streams, and the same active applications;
* `Machine.twins_respects`, `Machine.passBody_twins` : the effects of a program, and a body with all it calls;
* `Machine.run_twins` : whole programs;
* `Machine.run_isolated` : hence the cells that a program may not address neither change nor matter.
-/

namespace Bracketry

/-! ## Streams -/

namespace Streams

/-- What two streams have become after the same attempts: the same answers are to come, and the same events have been added. -/
structure Since (start start' streams streams' : Streams) : Prop where
  reads : streams.reads = streams'.reads
  writes : streams.writes = streams'.writes
  flushes : streams.flushes = streams'.flushes
  log : ∃ recent, streams.log = recent ++ start.log ∧ streams'.log = recent ++ start'.log
  /-- Answers are taken from a queue and not added to it. -/
  left : streams.flushes <:+ start.flushes

variable {start start' streams streams' : Streams}

theorem Since.refl (streams : Streams) : Since streams streams streams streams :=
  ⟨rfl, rfl, rfl, ⟨[], rfl, rfl⟩, List.suffix_refl _⟩

theorem Since.eq (h : Since start start streams streams') : streams = streams' := by
  obtain ⟨hreads, hwrites, hflushes, ⟨recent, hlog, hlog'⟩, -⟩ := h
  cases streams
  cases streams'
  simp_all

theorem Since.note (h : Since start start' streams streams') (event : Event) :
    ∃ recent, event :: streams.log = recent ++ start.log ∧ event :: streams'.log = recent ++ start'.log := by
  obtain ⟨recent, hlog, hlog'⟩ := h.log
  exact ⟨event :: recent, by rw [hlog]; rfl, by rw [hlog']; rfl⟩

theorem Since.flush (h : Since start start' streams streams') :
    streams.flush.1 = streams'.flush.1 ∧ Since start start' streams.flush.2 streams'.flush.2 := by
  have hleft := h.left
  unfold Streams.flush
  cases hflushes : streams.flushes with
  | nil =>
    rw [← h.flushes, hflushes]
    exact ⟨rfl, h.reads, h.writes, rfl, h.note _, List.nil_suffix⟩
  | cons reply flushes =>
    rw [hflushes] at hleft
    rw [← h.flushes, hflushes]
    exact ⟨rfl, h.reads, h.writes, rfl, h.note _, (List.suffix_cons reply flushes).trans hleft⟩

theorem Since.readFrom (h : Since start start' streams streams') (replies : List ReadReply) :
    (streams.readFrom replies).1 = (streams'.readFrom replies).1 ∧
      Since start start' (streams.readFrom replies).2 (streams'.readFrom replies).2 := by
  induction replies generalizing streams streams' with
  | nil => exact ⟨rfl, rfl, h.writes, h.flushes, h.note _, h.left⟩
  | cons reply replies ih =>
    have hnoted : Since start start' { streams with reads := replies, log := .read reply :: streams.log }
        { streams' with reads := replies, log := .read reply :: streams'.log } :=
      ⟨rfl, h.writes, h.flushes, h.note _, h.left⟩
    cases reply with
    | byte value => exact ⟨rfl, hnoted⟩
    | nothing => exact ⟨rfl, hnoted⟩
    | fault fault =>
      cases fault with
      | interrupted => exact ih hnoted
      | _ => exact ⟨rfl, hnoted⟩

theorem Since.read (h : Since start start' streams streams') :
    streams.read.1 = streams'.read.1 ∧ Since start start' streams.read.2 streams'.read.2 := by
  unfold Streams.read
  rw [← h.reads]
  exact h.readFrom _

theorem Since.writeFrom (h : Since start start' streams streams') (value : UInt8) (replies : List WriteReply) :
    (streams.writeFrom value replies).1 = (streams'.writeFrom value replies).1 ∧
      Since start start' (streams.writeFrom value replies).2 (streams'.writeFrom value replies).2 := by
  induction replies generalizing streams streams' with
  | nil => exact ⟨rfl, h.reads, rfl, h.flushes, h.note _, h.left⟩
  | cons reply replies ih =>
    have hnoted : Since start start' { streams with writes := replies, log := .write value reply :: streams.log }
        { streams' with writes := replies, log := .write value reply :: streams'.log } :=
      ⟨h.reads, rfl, h.flushes, h.note _, h.left⟩
    cases reply with
    | accepted => exact ⟨rfl, hnoted⟩
    | nothing => exact ⟨rfl, hnoted⟩
    | fault fault =>
      cases fault with
      | interrupted => exact ih hnoted
      | _ => exact ⟨rfl, hnoted⟩

theorem Since.write (h : Since start start' streams streams') (value : UInt8) :
    (streams.write value).1 = (streams'.write value).1 ∧ Since start start' (streams.write value).2 (streams'.write value).2 := by
  unfold Streams.write
  rw [← h.writes]
  exact h.writeFrom value _

end Streams

/-! ## Memories -/

namespace Memory
variable {bound address : Nat} {memory start start' : Memory}

structure SameFrom (bound : Nat) (before after : Memory) : Prop where
  size : after.size = before.size
  get?_eq (address : Nat) (haddress : bound ≤ address) : after.get? address = before.get? address

theorem SameFrom.refl (bound : Nat) (memory : Memory) : SameFrom bound memory memory := ⟨rfl, fun _ _ => rfl⟩

theorem SameFrom.set (h : SameFrom bound start memory) (haddress : address < bound) (value : UInt8) :
    SameFrom bound start (memory.set address value) := by
  refine ⟨(memory.size_set address value).trans h.size, fun other hother => ?_⟩
  rw [get?_set, if_neg (by omega)]
  exact h.get?_eq other hother

/-- Memories that agree below the bound, and above it with what each was at the start. -/
structure Divided (bound : Nat) (start start' memory memory' : Memory) : Prop where
  below (address : Nat) (haddress : address < bound) : memory.get? address = memory'.get? address
  left : SameFrom bound start memory
  right : SameFrom bound start' memory'

theorem Indistinct.divided (bound : Nat) (start start' : Memory) : Indistinct bound (Divided bound start start') where
  get?_eq h _ haddress := h.below _ haddress
  set {memory memory'} h address haddress value := by
    refine ⟨fun other hother => ?_, h.left.set haddress value, h.right.set haddress value⟩
    have hsize := lt_size_iff_of_get?_eq (h.below address haddress)
    rw [get?_set, get?_set, h.below other hother]
    simp only [hsize]

end Memory

/-! ## Machines -/

namespace Machine
variable {S : Memory → Memory → Prop} {start start' : Streams}

/-- Machines with memories that are related, streams with the same future, and the same active applications. -/
structure Twin (S : Memory → Memory → Prop) (start start' : Streams) (machine machine' : Machine) : Prop where
  memory : S machine.memory machine'.memory
  streams : Streams.Since start start' machine.streams machine'.streams
  frames : machine.frames = machine'.frames

abbrev twins (S : Memory → Memory → Prop) (start start' : Streams) : Relator Machine Machine := .abreast (Twin S start start')

theorem twins_eq_pairs : twins S start start' = pairs S (Streams.Since start start') := by
  refine congrArg Relator.abreast (funext fun machine => funext fun machine' => propext ?_)
  exact ⟨fun ⟨hmemory, hstreams, hframes⟩ => ⟨hmemory, hstreams, hframes⟩,
    fun ⟨hmemory, hstreams, hframes⟩ => ⟨hmemory, hstreams, hframes⟩⟩

theorem readByte_since : (pairs S (Streams.Since start start')).Rel Eq readByte readByte :=
  Relator.bind_eq _ (perform_pairs Streams.Since.flush) fun _ => perform_pairs Streams.Since.read

theorem writeByte_since (value : UInt8) : (pairs S (Streams.Since start start')).Rel Eq (writeByte value) (writeByte value) :=
  perform_pairs fun h => h.write value

variable {limits : Limits} {program : Program}

theorem twins_respects (hS : Memory.Indistinct limits.dataSize S) :
    Respects (twins S start start') limits limits program (· < limits.dataSize) := by
  rw [twins_eq_pairs]
  exact pairs_respects hS readByte_since writeByte_since

variable (program) in
/-- A body and all it calls do the same on twins. -/
theorem passBody_twins (hS : Memory.Indistinct limits.dataSize S) (fuel : Nat) (body : List Token) :
    (twins S start start').Rel Eq (passBody limits program fuel body) (passBody limits program fuel body) :=
  (twins_respects hS).passBody fuel body

variable (program) in
/-- A program does the same on twins, and leaves twins behind. -/
theorem run_twins (hS : Memory.Indistinct limits.dataSize S) (fuel : Nat) :
    (twins S start start').Rel Eq (run limits program fuel) (run limits program fuel) := by
  refine run_abreast (twins_respects hS) ?_ fuel
  rw [← twins, twins_eq_pairs]
  exact perform_pairs Streams.Since.flush

/-! ## Isolation -/

theorem resultOf_eq_of_abreast {α : Type} {T : Machine → Machine → Prop} {r r' : EStateM.Result Stop Machine α}
    (h : Relator.Abreast T Eq r r') : resultOf r = resultOf r' ∧ T (after r) (after r') := by
  cases r <;> cases r'
  · exact ⟨congrArg Except.ok h.1, h.2⟩
  · exact h.elim
  · exact h.elim
  · exact ⟨congrArg Except.error h.1, h.2⟩

variable (program) in
theorem run_divided {machine : Machine} {memory' : Memory}
    (hagree : ∀ address < limits.dataSize, machine.memory.get? address = memory'.get? address) (fuel : Nat) :
    Relator.Abreast
      (Twin (Memory.Divided limits.dataSize machine.memory memory') machine.streams machine.streams) Eq
      (run limits program fuel machine) (run limits program fuel { machine with memory := memory' }) :=
  run_twins program (.divided _ _ _) fuel _ _ ⟨⟨hagree, .refl _ _, .refl _ _⟩, .refl _, rfl⟩

/-- Cells at addresses that are not below the limit neither matter nor change, whatever the program, whatever the streams answer
and however the run ends: two memories that agree below the limit give one result, one sequence of attempts on the streams and the
same cells below the limit, and each keeps its size and its own cells from the limit on. -/
theorem run_isolated (limits : Limits) (program : Program) (fuel : Nat) (machine : Machine) (memory' : Memory)
    (hagree : ∀ address < limits.dataSize, machine.memory.get? address = memory'.get? address) :
    let r := run limits program fuel machine
    let r' := run limits program fuel { machine with memory := memory' }
    resultOf r = resultOf r' ∧ (after r).streams = (after r').streams ∧
      (∀ address < limits.dataSize, (after r).memory.get? address = (after r').memory.get? address) ∧
      machine.memory.SameFrom limits.dataSize (after r).memory ∧ memory'.SameFrom limits.dataSize (after r').memory := by
  intro r r'
  obtain ⟨hresult, hmemory, hstreams, -⟩ := resultOf_eq_of_abreast (run_divided program hagree fuel)
  exact ⟨hresult, hstreams.eq, hmemory.below, hmemory.left, hmemory.right⟩

/-- Of three cells, the program `[1 5 .] [2 +]` may address two. It ends at the third, whatever that holds. -/
theorem run_isolated_of_refused :
    let program : Program := .ofEntry [.opening .applicator, .literal 1, .literal 5, .builtin .output, .closing .applicator,
      .opening .applicator, .literal 2, .builtin .increment, .closing .applicator]
    let memory' := (Memory.zeroed 3).set 2 7
    let r := run ⟨2, 256⟩ program 10 { memory := .zeroed 3 }
    let r' := run ⟨2, 256⟩ program 10 { memory := memory' }
    (∀ address < 2, (Memory.zeroed 3).get? address = memory'.get? address) ∧
      resultOf r = .error (.fault (.addressOutOfRange 2)) ∧ resultOf r' = .error (.fault (.addressOutOfRange 2)) ∧
      (after r').streams.output = [5] ∧ (after r').memory.get? 1 = some 5 ∧ (after r').memory.get? 2 = some 7 := by
  intro program memory' r r'
  have hagree : ∀ address < 2, (Memory.zeroed 3).get? address = memory'.get? address := by
    intro address haddress
    rw [Memory.get?_set, if_neg (by omega)]
  obtain ⟨hresult, hstreams, hbelow, -, hright⟩ := run_isolated ⟨2, 256⟩ program 10 { memory := .zeroed 3 } memory' hagree
  have hfault : resultOf r = .error (.fault (.addressOutOfRange 2)) := rfl
  refine ⟨hagree, hfault, hresult.symm.trans hfault, ?_, ?_, ?_⟩
  · exact (congrArg Streams.output hstreams).symm.trans rfl
  · exact (hbelow 1 (by decide)).symm.trans (by decide)
  · exact (hright.get?_eq 2 (by decide)).trans (by decide)

end Machine

end Bracketry
