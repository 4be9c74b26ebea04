import Bracketry.Proofs.CProgram.Reference

/-!
# A machine and a C program side by side

A machine whose streams give an input and take every output, and the array, the input and the output of a C program.

* `Streams.Quiet` : such streams;
* `Mirrors` : the machine and the C program hold the same;
* `applyBuiltin_mirrors`, `assign_mirrors`, `testLoop_mirrors`, `call_mirrors` : an operation on a cell and its statement keep
  it so, where the expression of the statement has the address of the cell for its value.
-/

namespace Bracketry

/-! ## Streams -/

/-- The streams give these bytes, then none, and take all that is written. -/
structure Streams.Quiet (streams : Streams) (input : List UInt8) : Prop where
  reads : streams.reads = input.map .byte
  writes : streams.writes = []
  flushes : streams.flushes = []

namespace Streams
variable {streams : Streams} {input : List UInt8}

theorem quiet_ofInput (input : List UInt8) : (ofInput input).Quiet input := ⟨rfl, rfl, rfl⟩

theorem flush_of_quiet (h : streams.Quiet input) :
    ∃ after, streams.flush = (.ok (), after) ∧ after.Quiet input ∧ after.output = streams.output := by
  refine ⟨{ streams with log := .flush .done :: streams.log }, ?_, ⟨h.reads, h.writes, h.flushes⟩, ?_⟩
  · rw [flush, h.flushes]
  · simp [output, events, Event.byteWritten?]

theorem read_of_quiet (h : streams.Quiet input) :
    ∃ after, streams.read = (.ok (input.headD 0), after) ∧ after.Quiet input.tail ∧ after.output = streams.output := by
  cases input with
  | nil =>
    refine ⟨{ streams with reads := [], log := .read .nothing :: streams.log }, ?_, ⟨rfl, h.writes, h.flushes⟩, ?_⟩
    · rw [read, h.reads]
      rfl
    · simp [output, events, Event.byteWritten?]
  | cons byte input =>
    refine ⟨{ streams with reads := input.map .byte, log := .read (.byte byte) :: streams.log }, ?_,
      ⟨rfl, h.writes, h.flushes⟩, ?_⟩
    · rw [read, h.reads]
      rfl
    · simp [output, events, Event.byteWritten?]

theorem write_of_quiet (h : streams.Quiet input) (byte : UInt8) :
    ∃ after, streams.write byte = (.ok (), after) ∧ after.Quiet input ∧ after.output = streams.output ++ [byte] := by
  refine ⟨{ streams with writes := [], log := .write byte .accepted :: streams.log }, ?_, ⟨h.reads, rfl, h.flushes⟩, ?_⟩
  · rw [write, h.writes]
    rfl
  · simp [output, events, Event.byteWritten?]

end Streams

/-! ## Numbers -/

theorem UInt8.ofInt_toInt (value : Int64) : UInt8.ofInt value.toInt = value.toUInt64.toUInt8 := by
  have hnat : value.toUInt64.toNat = value.toBitVec.toNat := rfl
  have hint : value.toInt = value.toBitVec.toInt := rfl
  apply UInt8.toNat_inj.1
  rw [hint, UInt64.toNat_toUInt8, hnat, BitVec.toInt, UInt8.ofInt, UInt8.toNat_ofNat']
  split <;> omega

theorem UInt32.ofInt_natCast (n : Nat) : UInt32.ofInt n = UInt32.ofNat n := by
  apply UInt32.toNat_inj.1
  rw [UInt32.ofInt, UInt32.toNat_ofNat', UInt32.toNat_ofNat']
  omega

/-! ## The same cells and the same bytes -/

namespace CProgram

def argumentOf (frames : Array Nat) : Option UInt32 := frames.back?.map UInt32.ofNat

theorem argumentOf_eq {frames : Array Nat} {address : Nat} (h : frames.back? = some address) :
    argumentOf frames = some (UInt32.ofNat address) := by
  rw [argumentOf, h]
  rfl

/-- A call by reference evaluates the body with the argument that is innermost then. -/
theorem Reference.call_succ {program : Program} {name : String} {body : List Token} (hlookup : program.body? name = some body)
    (hname : name ≠ entryName) (frames : Array Nat) (fuel address : Nat) :
    Reference.call program (fuel + 1) name (UInt32.ofNat address) =
      (Forest.ofTokens body).evaluate
        (Reference.backend (argumentOf (frames.push address)) (Reference.call program fuel)) program fuel := by
  rw [Reference.call, Program.lookup_applications hname, hlookup, argumentOf_eq Array.back?_push]

/-- The machine and the C program hold the same. -/
structure Mirrors (size : Nat) (frames : Array Nat) (machine : Machine) (state : State) : Prop where
  size : machine.memory.size = size
  frames : machine.frames = frames
  memory : state.memory = machine.memory
  streams : machine.streams.Quiet state.input
  output : machine.streams.output = state.output

variable {size : Nat} {frames : Array Nat} {machine : Machine} {state : State}

theorem Mirrors.set (h : Mirrors size frames machine state) (address : Nat) (byte : UInt8) :
    Mirrors size frames { machine with memory := machine.memory.set address byte }
      { state with memory := state.memory.set address byte } where
  size := (Memory.size_set _ _ _).trans h.size
  frames := h.frames
  memory := congrArg (Memory.set · address byte) h.memory
  streams := h.streams
  output := h.output

/-- At the start both are the same. -/
theorem mirrors_fresh (limits : Limits) (input : List UInt8) :
    Mirrors limits.dataSize #[] (Machine.fresh limits input) { memory := .zeroed limits.dataSize, input } where
  size := rfl
  frames := rfl
  memory := rfl
  streams := Streams.quiet_ofInput input
  output := rfl

variable {argument : Option UInt32} {callRoutine : String → UInt32 → Action State Unit} {address : Nat} {e : Expr}

theorem value_eq {index : Int} (he : e.eval state.memory argument = .ok index) :
    State.value argument e state = .ok index state := by
  unfold State.value
  rw [he]
  rfl

theorem locate_eq (he : e.eval state.memory argument = .ok (address : Int)) (haddress : address < state.memory.size) :
    State.locate argument e state = .ok address state := by
  unfold State.locate
  rw [he]
  change Action.ofExcept (state.memory.locate address) state = _
  rw [Memory.locate, if_pos ⟨by omega, by omega⟩]
  rfl

theorem applyBuiltin_mirrors (h : Mirrors size frames machine state)
    (he : e.eval state.memory argument = .ok (address : Int)) (haddress : address < size) (op : Builtin) :
    ∃ machine' state', Machine.applyBuiltin address op machine = .ok () machine' ∧
      Reference.applyBuiltin argument callRoutine e op state = .ok () state' ∧ Mirrors size frames machine' state' := by
  have hmachine : address < machine.memory.size := h.size ▸ haddress
  have hlocate := locate_eq he (h.memory ▸ hmachine)
  have hcell := Machine.cell_eq hmachine
  have hvalue : state.memory.value address = machine.memory.value address := congrArg (Memory.value · address) h.memory
  cases op with
  | increment =>
    refine ⟨_, _, (Action.bind_of_ok hcell).trans (Machine.store_eq hmachine _), ?_, h.set address _⟩
    simp only [Reference.applyBuiltin, Reference.perform, Statement.exec, bind_assoc, pure_bind]
    rw [Action.bind_of_ok hlocate, ← hvalue]
    rfl
  | decrement =>
    refine ⟨_, _, (Action.bind_of_ok hcell).trans (Machine.store_eq hmachine _), ?_, h.set address _⟩
    simp only [Reference.applyBuiltin, Reference.perform, Statement.exec, bind_assoc, pure_bind]
    rw [Action.bind_of_ok hlocate, ← hvalue]
    rfl
  | output =>
    obtain ⟨streams, hwrite, hquiet, houtput⟩ := Streams.write_of_quiet h.streams (machine.memory.value address)
    have hbyte : Machine.applyBuiltin address .output machine = .ok () { machine with streams } :=
      (Action.bind_of_ok hcell).trans (Machine.perform_of_ok hwrite)
    have hmirrors : Mirrors size frames { machine with streams }
        { state with output := state.output ++ [machine.memory.value address] } := by
      refine ⟨h.size, h.frames, h.memory, hquiet, ?_⟩
      rw [houtput, h.output]
    refine ⟨_, _, hbyte, ?_, hmirrors⟩
    simp only [Reference.applyBuiltin, Reference.perform, Statement.exec, bind_assoc, pure_bind]
    rw [Action.bind_of_ok hlocate, ← hvalue]
    rfl
  | input =>
    obtain ⟨flushed, hflush, hquiet, houtput⟩ := Streams.flush_of_quiet h.streams
    obtain ⟨streams, hread, hquiet', houtput'⟩ := Streams.read_of_quiet hquiet
    have hperform : Machine.perform Streams.read { machine with streams := flushed } =
        .ok (state.input.headD 0) { machine with streams } := Machine.perform_of_ok hread
    have hbyte : Machine.readByte machine = .ok (state.input.headD 0) { machine with streams } :=
      (Action.bind_of_ok (Machine.perform_of_ok hflush)).trans hperform
    have hafter : address < (Machine.memory { machine with streams }).size := hmachine
    have hget : State.get state = .ok (state.input.headD 0) { state with input := state.input.tail } := by
      obtain ⟨memory, input, output⟩ := state
      cases input <;> rfl
    have hmirrors : Mirrors size frames { machine with streams } { state with input := state.input.tail } := by
      refine ⟨h.size, h.frames, h.memory, hquiet', ?_⟩
      rw [houtput', houtput, h.output]
    have hstore := (Action.bind_of_ok hbyte).trans (Machine.store_eq hafter _)
    refine ⟨_, _, hstore, ?_, hmirrors.set address _⟩
    simp only [Reference.applyBuiltin, Reference.perform, Statement.exec, bind_assoc, pure_bind]
    rw [Action.bind_of_ok hlocate, Action.bind_of_ok hget]
    rfl
  | nop => exact ⟨machine, state, rfl, rfl, h⟩

theorem assign_mirrors (h : Mirrors size frames machine state)
    (he : e.eval state.memory argument = .ok (address : Int)) (haddress : address < size) {source : Expr} {value : Int64}
    (hsource : source.eval state.memory argument = .ok value.toInt) :
    ∃ machine' state', Machine.store address value.toUInt64.toUInt8 machine = .ok () machine' ∧
      Reference.perform argument callRoutine (.assign e source) state = .ok () state' ∧
      Mirrors size frames machine' state' := by
  have hmachine : address < machine.memory.size := h.size ▸ haddress
  have hlocate := locate_eq he (h.memory ▸ hmachine)
  have hvalue := value_eq hsource
  refine ⟨_, _, Machine.store_eq hmachine _, ?_, h.set address _⟩
  simp only [Reference.perform, Statement.exec, bind_assoc, pure_bind]
  rw [Action.bind_of_ok hlocate, Action.bind_of_ok hvalue, UInt8.ofInt_toInt]
  rfl

theorem testLoop_mirrors (h : Mirrors size frames machine state)
    (he : e.eval state.memory argument = .ok (address : Int)) (haddress : address < size) {limits : Limits}
    {program : Program} {evaluateBody : List Token → Action Machine Unit} :
    ∃ answer, (Machine.backendWith limits program evaluateBody).testLoop address machine = .ok answer machine ∧
      (Reference.backend argument callRoutine).testLoop e state = .ok answer state := by
  have hmachine : address < machine.memory.size := h.size ▸ haddress
  have hvalue : state.memory.value address = machine.memory.value address := congrArg (Memory.value · address) h.memory
  have hcell := Machine.cell_eq hmachine
  have hlocate := locate_eq he (h.memory ▸ hmachine)
  refine ⟨if machine.memory.value address = 0 then .skip else .run, Action.bind_of_ok hcell, ?_⟩
  simp only [Reference.backend, Statement.exec, bind_assoc, pure_bind]
  rw [Action.bind_of_ok hlocate, ← hvalue]
  by_cases hzero : state.memory.value address = 0
  · rw [if_pos hzero]
    change (if state.memory.value address != 0 then _ else _ : Action State LoopEntry) state = _
    simp [hzero]
    rfl
  · rw [if_neg hzero]
    change (if state.memory.value address != 0 then _ else _ : Action State LoopEntry) state = _
    simp [hzero]
    rfl

/-- A flush is nothing that a C program would notice. -/
theorem flush_mirrors (h : Mirrors size frames machine state) :
    ∃ machine', Machine.perform Streams.flush machine = .ok () machine' ∧ machine'.streams.output = state.output ∧
      machine'.memory = state.memory := by
  obtain ⟨streams, hflush, -, houtput⟩ := Streams.flush_of_quiet h.streams
  refine ⟨{ machine with streams }, Machine.perform_of_ok hflush, ?_, h.memory.symm⟩
  rw [houtput, h.output]

/-- A call and its statement, where the body of the application and its routine go on side by side with one more application
active. -/
theorem call_mirrors {excused : Stop → Prop} {limits : Limits} {program : Program}
    {evaluateBody : List Token → Action Machine Unit} {name : String} (h : Mirrors size frames machine state)
    (he : e.eval state.memory argument = .ok (address : Int)) (happlication : program.isApplication name = true)
    (hdepth : limits.maxCallDepth ≤ frames.size → excused (.fault (.callDepthExceeded limits.maxCallDepth)))
    (hbody : ∀ body, program.body? name = some body → name ≠ entryName →
      (Relator.alongside excused (Mirrors size (frames.push address))).Rel Eq (evaluateBody body)
        (callRoutine name (UInt32.ofNat address))) :
    Relator.Alongside excused (Mirrors size frames) Eq (Machine.call limits program evaluateBody name address machine)
      (Reference.perform argument callRoutine (.call name e) state) := by
  have hroutine : Reference.perform argument callRoutine (.call name e) state =
      callRoutine name (UInt32.ofNat address) state := by
    simp only [Reference.perform, Statement.exec, bind_assoc, pure_bind]
    rw [Action.bind_of_ok (value_eq he), UInt32.ofInt_natCast]
    exact congrFun (bind_pure_unit (m := Action State)) state
  obtain ⟨body, hlookup, hname⟩ := Program.exists_body_of_isApplication happlication
  rw [hroutine, Machine.call_eq, h.frames]
  split
  · next hdeep => exact .inl (hdepth hdeep)
  · simp only [hlookup, Machine.inFrame_eq]
    have hpushed : Mirrors size (frames.push address) { machine with frames := machine.frames.push address } state :=
      ⟨h.size, congrArg (Array.push · address) h.frames, h.memory, h.streams, h.output⟩
    have hresult := hbody body hlookup hname _ _ hpushed
    cases hmachine : evaluateBody body { machine with frames := machine.frames.push address } with
    | ok _ machine' =>
      rw [hmachine] at hresult
      obtain ⟨_, state', hstate, -, h'⟩ := Relator.exists_of_alongside hresult
      rw [hstate]
      refine ⟨rfl, h'.size, ?_, h'.memory, h'.streams, h'.output⟩
      change machine'.frames.pop = frames
      rw [h'.frames, Array.pop_push]
    | error stop machine' =>
      rw [hmachine] at hresult
      exact hresult

end CProgram

end Bracketry
