import Bracketry.Machine.Interpreter
import Bracketry.Proofs.Stops

/-!
# The effects of a machine as equations

* `Memory.value` : a cell of a memory that has it;
* `Limits.Addressable` : the addresses that a program can get hold of; `checkAddress_shown` says that they pass for one again;
* `Machine.cell_eq`, `Machine.store_eq` : on such addresses the effects succeed;
* `Machine.HasArgument` : a body that may ask for its argument has one;
* `Machine.accessor_literal`, `Machine.accessor_parameter` : numbers and the argument as accessors;
* `Machine.perform_of_ok`, `Machine.perform_of_error` : an operation of the streams leaves the rest of the machine alone;
* `Machine.backendWith_stopsOnly` : effects stop for no reasons of structure and for no lack of fuel, calls apart.
-/

namespace Bracketry

/-- The cell at an address; zero where there is none. -/
def Memory.value (memory : Memory) (address : Nat) : UInt8 := (memory.get? address).getD 0

theorem Memory.get?_eq_some {memory : Memory} {address : Nat} (h : address < memory.size) :
    memory.get? address = some (memory.value address) := by
  cases hget : memory.get? address with
  | none => exact absurd ((memory.get?_eq_none_iff address).1 hget) (by omega)
  | some byte =>
    rw [value, hget]
    rfl

namespace Limits
variable {limits : Limits}

/-- An address that names a cell and that is shown as what it is. -/
def Addressable (limits : Limits) (address : Nat) : Prop :=
  address < limits.dataSize ∧ (Machine.shown address).toInt = address

theorem addressable_of_checkAddress {value : Int64} {address : Nat} (h : limits.checkAddress value = .ok address) :
    limits.Addressable address ∧ value.toInt = address := by
  unfold checkAddress at h
  split at h
  · next hrange =>
    obtain rfl := Except.ok.inj h
    have hlt := value.toInt_lt
    refine ⟨⟨by omega, ?_⟩, by omega⟩
    exact Int64.toInt_ofNat_of_lt (by omega)
  · cases h

theorem checkAddress_of_addressable {value : Int64} {address : Nat} (h : limits.Addressable address)
    (hvalue : value.toInt = address) : limits.checkAddress value = .ok address := by
  obtain ⟨hsize, -⟩ := h
  unfold checkAddress
  rw [if_pos ⟨by omega, by omega⟩, hvalue]
  rfl

theorem checkAddress_eq_error {value : Int64} {error : Error} (h : limits.checkAddress value = .error error) :
    error = .addressOutOfRange value ∧ (0 ≤ value.toInt → limits.dataSize ≤ value.toInt) := by
  unfold checkAddress at h
  split at h
  · cases h
  · next hrange =>
    obtain rfl := Except.error.inj h
    exact ⟨rfl, fun hnonneg => by omega⟩

end Limits

namespace Machine

theorem checkAddress_shown {limits : Limits} {address : Nat} (h : limits.Addressable address) :
    limits.checkAddress (shown address) = .ok address :=
  Limits.checkAddress_of_addressable h h.2

theorem cell_eq {machine : Machine} {address : Nat} (h : address < machine.memory.size) :
    cell address machine = .ok (machine.memory.value address) machine := by
  unfold cell
  rw [Memory.get?_eq_some h]

theorem store_eq {machine : Machine} {address : Nat} (h : address < machine.memory.size) (value : UInt8) :
    store address value machine = .ok () { machine with memory := machine.memory.set address value } := by
  obtain ⟨memory, streams, frames⟩ := machine
  unfold store
  exact if_pos h

/-- The argument that a body may ask for is there, and it is an address. -/
def HasArgument (limits : Limits) (frames : Array Nat) (inApplication : Bool) : Prop :=
  inApplication = true → ∃ address, frames.back? = some address ∧ limits.Addressable address

theorem argument_eq {machine : Machine} {address : Nat} (h : machine.frames.back? = some address) :
    argument machine = .ok (shown address) machine := by
  unfold argument
  rw [h]

section
variable {limits : Limits} {program : Program} {evaluateBody : List Token → Action Machine Unit}

theorem accessor_literal {value : Int64} (h : (limits.checkAddress value).isOk = true) :
    ∃ address, limits.Addressable address ∧ value.toInt = address ∧
      Pass.accessor (backendWith limits program evaluateBody) (.pending (.literal value)) = pure address := by
  cases hcheck : limits.checkAddress value with
  | error error =>
    rw [hcheck] at h
    cases h
  | ok address =>
    obtain ⟨haddress, hvalue⟩ := Limits.addressable_of_checkAddress hcheck
    refine ⟨address, haddress, hvalue, ?_⟩
    change Action.ofExcept (limits.checkAddress value) = _
    rw [hcheck]
    rfl

theorem accessor_parameter {machine : Machine} {address : Nat} (hback : machine.frames.back? = some address)
    (haddress : limits.Addressable address) :
    Pass.accessor (backendWith limits program evaluateBody) (.pending .parameter) machine = .ok address machine := by
  refine (Action.bind_of_ok (argument_eq hback)).trans ?_
  change Action.ofExcept (limits.checkAddress (shown address)) machine = _
  rw [checkAddress_shown haddress]
  rfl

end

theorem eq_of_cell {machine machine' : Machine} {address : Nat} {value : UInt8}
    (h : cell address machine = .ok value machine') : machine' = machine := by
  unfold cell at h
  split at h
  · exact (EStateM.Result.ok.inj h).2.symm
  · cases h

theorem eq_of_argument {machine machine' : Machine} {value : Int64} (h : argument machine = .ok value machine') :
    machine' = machine := by
  unfold argument at h
  split at h
  · exact (EStateM.Result.ok.inj h).2.symm
  · cases h

variable {α : Type} {operation : Streams → Except StreamFault α × Streams} {machine : Machine} {streams : Streams}

theorem perform_of_ok {a : α} (h : operation machine.streams = (.ok a, streams)) :
    perform operation machine = .ok a { machine with streams } := by
  obtain ⟨memory, before, frames⟩ := machine
  unfold perform
  simp only [h]

theorem perform_of_error {fault : StreamFault} (h : operation machine.streams = (.error fault, streams)) :
    perform operation machine = .error (.fault (.stream fault)) { machine with streams } := by
  obtain ⟨memory, before, frames⟩ := machine
  unfold perform
  simp only [h]

/-- The streams are the only reason for an operation of theirs to stop. -/
theorem stop_of_perform {stop : Stop} {after : Machine} (h : perform operation machine = .error stop after) :
    ∃ fault, stop = .fault (.stream fault) := by
  cases hoperation : operation machine.streams with
  | mk result streams =>
    cases result with
    | ok a => rw [perform_of_ok hoperation] at h; cases h
    | error fault =>
      rw [perform_of_error hoperation] at h
      obtain ⟨rfl, -⟩ := EStateM.Result.error.inj h
      exact ⟨fault, rfl⟩

/-! ## Why effects stop -/

section
variable {P : Stop → Prop} (hP : ∀ error : Error, error.IsUnstructured → P (.fault error))
include hP

theorem cell_ends (address : Nat) : (cell address).Ends P fun _ => True := by
  intro machine
  unfold cell
  split
  · exact trivial
  · exact hP _ nofun

theorem store_ends (address : Nat) (value : UInt8) : (store address value).Ends P fun _ => True := by
  rintro ⟨memory, streams, frames⟩
  unfold store
  dsimp only
  split
  · exact trivial
  · exact hP _ nofun

theorem perform_ends {α : Type} (operation : Streams → Except StreamFault α × Streams) :
    (perform operation).Ends P fun _ => True := by
  rintro ⟨memory, streams, frames⟩
  unfold perform
  dsimp only
  split
  · exact trivial
  · exact hP _ nofun

theorem applyBuiltin_ends (address : Nat) (op : Builtin) : (applyBuiltin address op).Ends P fun _ => True := by
  cases op with
  | increment => exact Action.ends_bind (cell_ends hP address) fun _ _ => store_ends hP address _
  | decrement => exact Action.ends_bind (cell_ends hP address) fun _ _ => store_ends hP address _
  | output => exact Action.ends_bind (cell_ends hP address) fun _ _ => perform_ends hP _
  | input =>
    have hread : readByte.Ends P fun _ => True :=
      Action.ends_bind (perform_ends hP Streams.flush) fun _ _ => perform_ends hP Streams.read
    exact Action.ends_bind hread fun _ _ => store_ends hP address _
  | nop => exact Action.ends_pure trivial

theorem argument_ends : argument.Ends P fun _ => True := by
  intro machine
  unfold argument
  split
  · exact trivial
  · exact hP _ nofun

theorem checkAddress_ends {limits : Limits} (value : Int64) :
    (Action.ofExcept (limits.checkAddress value) : Action Machine Nat).Ends P fun _ => True := by
  refine Action.ends_mono (fun _ => id) (fun _ _ => trivial) (Action.ends_ofExcept fun error herror => ?_)
  rw [(Limits.checkAddress_eq_error herror).1]
  exact hP _ nofun

/-- Whatever becomes of calls, they are the only operations that may stop for other reasons. -/
theorem backendWith_stopsOnly (limits : Limits) (program : Program) (evaluateBody : List Token → Action Machine Unit)
    {called : String → Nat → Action Machine Unit} (hcall : ∀ name address, (called name address).Ends P fun _ => True) :
    { backendWith limits program evaluateBody with call := called }.StopsOnly P where
  literal _ := Action.ends_pure trivial
  parameter := argument_ends hP
  resolveAccessor := checkAddress_ends hP
  applyBuiltin := applyBuiltin_ends hP
  assign address _ := store_ends hP address _
  call := hcall
  resolve address := Action.ends_bind (cell_ends hP address) fun _ _ => Action.ends_pure trivial
  enterLoop := Action.ends_pure trivial
  testLoop address := Action.ends_bind (cell_ends hP address) fun _ _ => Action.ends_pure trivial
  exitLoop _ := Action.ends_pure trivial

end

end Machine

end Bracketry
