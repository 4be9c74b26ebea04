import Bracketry.Proofs.Called
import Bracketry.Proofs.Effects

/-!
# Relations that a machine respects

A relation between actions on machines that the effects of a program respect is respected by all that a program does.

* `Machine.Respects` : the effects on two machines are related, each under the limits of its side;
* `Machine.Respects.passBody` : then so are the two evaluations of a body with all it calls;
* `Memory.Indistinct` : a relation between memories that no access below an address tells apart;
* `Machine.Paired`, `Machine.pairs` : machines whose memories and streams are related and that have the same active applications;
* `Machine.pairs_respects` : for those, only the input and the output of a byte are left to look at;
* `Machine.run_abreast` : hence whole programs.
-/

namespace Bracketry

namespace Machine
variable {rel : Relator Machine Machine} {limits limits' : Limits} {program : Program} {reach : Nat → Prop}

/-- The effects of a program are related, each under the limits of its side, at the addresses that are within reach. -/
structure Respects (rel : Relator Machine Machine) (limits limits' : Limits) (program : Program) (reach : Nat → Prop) : Prop where
  faults : rel.KeepsFaults
  argument : rel.Rel Eq argument argument
  checkAddress (value : Int64) : rel.Rel (fun address address' => address = address' ∧ reach address)
    (Action.ofExcept (limits.checkAddress value)) (Action.ofExcept (limits'.checkAddress value))
  cell {address : Nat} (haddress : reach address) : rel.Rel Eq (cell address) (cell address)
  store {address : Nat} (haddress : reach address) (value : UInt8) : rel.Rel Eq (store address value) (store address value)
  read : rel.Rel Eq readByte readByte
  write (value : UInt8) : rel.Rel Eq (writeByte value) (writeByte value)
  call {evaluateBody evaluateBody' : List Token → Action Machine Unit}
    (hbody : ∀ body, rel.Rel Eq (evaluateBody body) (evaluateBody' body)) (name : String) (address : Nat) :
    rel.Rel Eq (call limits program evaluateBody name address) (call limits' program evaluateBody' name address)

namespace Respects
variable (h : Respects rel limits limits' program reach)
include h

theorem applyBuiltin {address : Nat} (haddress : reach address) (op : Builtin) :
    rel.Rel Eq (applyBuiltin address op) (applyBuiltin address op) := by
  cases op with
  | increment => exact rel.bind_eq (h.cell haddress) fun value => h.store haddress (value + 1)
  | decrement => exact rel.bind_eq (h.cell haddress) fun value => h.store haddress (value - 1)
  | output => exact rel.bind_eq (h.cell haddress) h.write
  | input => exact rel.bind_eq h.read (h.store haddress)
  | nop => exact rel.pure rfl

theorem backendWith {evaluateBody evaluateBody' : List Token → Action Machine Unit}
    (hbody : ∀ body, rel.Rel Eq (evaluateBody body) (evaluateBody' body)) :
    (backendWith limits program evaluateBody).Matches rel Eq (fun address address' => address = address' ∧ reach address) program
      (Machine.backendWith limits' program evaluateBody') program where
  literal _ := rel.pure rfl
  parameter := h.argument
  resolveAccessor := by
    rintro value _ rfl
    exact h.checkAddress value
  applyBuiltin := by
    rintro address _ ⟨rfl, haddress⟩ op
    exact h.applyBuiltin haddress op
  assign := by
    rintro address _ ⟨rfl, haddress⟩ value _ rfl
    exact h.store haddress _
  named := by
    rintro name address _ ⟨rfl, -⟩
    exact Pass.identifier_matches h.faults (h.call hbody name address)
  resolve := by
    rintro address _ ⟨rfl, haddress⟩
    exact rel.bind_eq (h.cell haddress) fun _ => rel.pure rfl
  enterLoop := rel.pure rfl
  testLoop := by
    rintro address _ ⟨rfl, haddress⟩
    exact rel.bind_eq (h.cell haddress) fun _ => rel.pure rfl
  exitLoop := by
    rintro address _ ⟨rfl, -⟩
    exact rel.pure rfl
  describe := by
    rintro value _ rfl
    rfl

theorem passBody (fuel : Nat) (body : List Token) :
    rel.Rel Eq (passBody limits program fuel body) (passBody limits' program fuel body) := by
  induction fuel generalizing body with
  | zero => exact rel.exhausted Eq
  | succ fuel ih =>
    rw [Machine.passBody, Machine.passBody, backend_eq, backend_eq]
    exact Pass.evaluate_matches (h.backendWith ih) h.faults fuel body

end Respects
end Machine

/-! ## Memories -/

namespace Memory
variable {address : Nat} {memory memory' : Memory}

/-- A relation between memories that no access below an address tells apart. -/
structure Indistinct (bound : Nat) (S : Memory → Memory → Prop) : Prop where
  get?_eq {memory memory' : Memory} (h : S memory memory') {address : Nat} (haddress : address < bound) :
    memory.get? address = memory'.get? address
  set {memory memory' : Memory} (h : S memory memory') {address : Nat} (haddress : address < bound) (value : UInt8) :
    S (memory.set address value) (memory'.set address value)

theorem Indistinct.eq (bound : Nat) : Indistinct bound Eq where
  get?_eq := by
    rintro memory _ rfl address -
    rfl
  set := by
    rintro memory _ rfl address - value
    rfl

theorem lt_size_iff_of_get?_eq (h : memory.get? address = memory'.get? address) :
    address < memory.size ↔ address < memory'.size := by
  rw [← Nat.not_le, ← Nat.not_le, ← get?_eq_none_iff, ← get?_eq_none_iff, h]

end Memory

/-! ## Pairs of machines -/

namespace Machine
variable {S : Memory → Memory → Prop} {T : Streams → Streams → Prop} {limits : Limits} {program : Program}

structure Paired (S : Memory → Memory → Prop) (T : Streams → Streams → Prop) (machine machine' : Machine) : Prop where
  memory : S machine.memory machine'.memory
  streams : T machine.streams machine'.streams
  frames : machine.frames = machine'.frames

abbrev pairs (S : Memory → Memory → Prop) (T : Streams → Streams → Prop) : Relator Machine Machine := .abreast (Paired S T)

section
variable {bound address : Nat} (hS : Memory.Indistinct bound S) (haddress : address < bound)
include hS haddress

theorem cell_pairs : (pairs S T).Rel Eq (cell address) (cell address) := by
  intro machine machine' h
  unfold cell
  rw [hS.get?_eq h.memory haddress]
  split
  · exact ⟨rfl, h⟩
  · exact ⟨rfl, h⟩

theorem store_pairs (value : UInt8) : (pairs S T).Rel Eq (store address value) (store address value) := by
  intro machine machine' h
  have hsize := Memory.lt_size_iff_of_get?_eq (hS.get?_eq h.memory haddress)
  obtain ⟨memory, streams, frames⟩ := machine
  obtain ⟨memory', streams', frames'⟩ := machine'
  obtain ⟨hmemory, hstreams, hframes⟩ := h
  unfold store
  dsimp only at hsize ⊢
  by_cases hcell : address < memory.size
  · rw [if_pos hcell, if_pos (hsize.1 hcell)]
    exact ⟨rfl, hS.set hmemory haddress value, hstreams, hframes⟩
  · rw [if_neg hcell, if_neg (hcell ∘ hsize.2)]
    exact ⟨rfl, hmemory, hstreams, hframes⟩

end

theorem perform_pairs {α : Type} {operation operation' : Streams → Except StreamFault α × Streams}
    (hoperation : ∀ {streams streams'}, T streams streams' →
      (operation streams).1 = (operation' streams').1 ∧ T (operation streams).2 (operation' streams').2) :
    (pairs S T).Rel Eq (perform operation) (perform operation') := by
  intro machine machine' h
  obtain ⟨hresult, hstreams⟩ := hoperation h.streams
  cases hleft : operation machine.streams with
  | mk result streams =>
    cases hright : operation' machine'.streams with
    | mk result' streams' =>
      rw [hleft, hright] at hresult hstreams
      dsimp only at hresult
      subst hresult
      cases result with
      | ok a =>
        rw [perform_of_ok hleft, perform_of_ok hright]
        exact ⟨rfl, h.memory, hstreams, h.frames⟩
      | error fault =>
        rw [perform_of_error hleft, perform_of_error hright]
        exact ⟨rfl, h.memory, hstreams, h.frames⟩

theorem argument_pairs : (pairs S T).Rel Eq argument argument := by
  intro machine machine' h
  unfold argument
  rw [h.frames]
  split
  · exact ⟨rfl, h⟩
  · exact ⟨rfl, h⟩

theorem checkAddress_abreast {S : Machine → Machine → Prop} (value : Int64) :
    (Relator.abreast S).Rel (fun address address' => address = address' ∧ address < limits.dataSize)
      (Action.ofExcept (limits.checkAddress value)) (Action.ofExcept (limits.checkAddress value)) := by
  cases hcheck : limits.checkAddress value with
  | ok address => exact (Relator.abreast S).pure ⟨rfl, (Limits.addressable_of_checkAddress hcheck).1.1⟩
  | error error => exact fun _ _ h => ⟨rfl, h⟩

/-- Related machines that a called application leaves are related as they are without it. -/
theorem leaveFrame_abreast {S S' : Machine → Machine → Prop} {r r' : EStateM.Result Stop Machine Unit}
    (h : Relator.Abreast S Eq r r') (hleave : ∀ machine machine', S machine machine' →
      S' { machine with frames := machine.frames.pop } { machine' with frames := machine'.frames.pop }) :
    Relator.Abreast S' Eq (leaveFrame r) (leaveFrame r') := by
  cases r <;> cases r'
  · exact ⟨rfl, hleave _ _ h.2⟩
  · exact h.elim
  · exact h.elim
  · exact ⟨h.1, hleave _ _ h.2⟩

theorem call_pairs {evaluateBody evaluateBody' : List Token → Action Machine Unit}
    (hbody : ∀ body, (pairs S T).Rel Eq (evaluateBody body) (evaluateBody' body)) (name : String) (address : Nat) :
    (pairs S T).Rel Eq (call limits program evaluateBody name address) (call limits program evaluateBody' name address) := by
  intro machine machine' h
  rw [call_eq, call_eq, h.frames]
  split
  · exact ⟨rfl, h⟩
  · split
    · exact ⟨rfl, h⟩
    · next body _ =>
      rw [inFrame_eq, inFrame_eq, h.frames]
      exact leaveFrame_abreast (hbody body _ _ ⟨h.memory, h.streams, rfl⟩) fun machine machine' hleft =>
        ⟨hleft.memory, hleft.streams, congrArg Array.pop hleft.frames⟩

/-- Pairs whose memories a program cannot tell apart go through it side by side if they do so through input and output. -/
theorem pairs_respects (hS : Memory.Indistinct limits.dataSize S) (hread : (pairs S T).Rel Eq readByte readByte)
    (hwrite : ∀ value, (pairs S T).Rel Eq (writeByte value) (writeByte value)) :
    Respects (pairs S T) limits limits program (· < limits.dataSize) where
  faults := Relator.abreast_keepsFaults _
  argument := argument_pairs
  checkAddress := checkAddress_abreast
  cell := cell_pairs hS
  store := store_pairs hS
  read := hread
  write := hwrite
  call := call_pairs

/-! ## Whole programs -/

theorem lastFlush_abreast {S : Machine → Machine → Prop}
    (hflush : (Relator.abreast S).Rel Eq (perform Streams.flush) (perform Streams.flush))
    {r r' : EStateM.Result Stop Machine Unit} (h : Relator.Abreast S Eq r r') :
    Relator.Abreast S Eq (lastFlush r) (lastFlush r') := by
  cases r with
  | ok _ machine =>
    cases r' with
    | ok _ machine' => exact hflush machine machine' h.2
    | error stop machine' => exact h.elim
  | error stop machine =>
    cases r' with
    | ok _ machine' => exact h.elim
    | error stop' machine' =>
      obtain ⟨rfl, hmachines⟩ := h
      cases stop with
      | outOfFuel => exact ⟨rfl, hmachines⟩
      | fault error =>
        have hflushed := hflush machine machine' hmachines
        unfold lastFlush
        dsimp only
        generalize perform Streams.flush machine = flushed at hflushed
        generalize perform Streams.flush machine' = flushed' at hflushed
        cases flushed <;> cases flushed'
        · exact ⟨rfl, hflushed.2⟩
        · exact hflushed.elim
        · exact hflushed.elim
        · exact hflushed

theorem run_abreast {S : Machine → Machine → Prop} (h : Respects (.abreast S) limits limits program (· < limits.dataSize))
    (hflush : (Relator.abreast S).Rel Eq (perform Streams.flush) (perform Streams.flush)) (fuel : Nat) :
    (Relator.abreast S).Rel Eq (run limits program fuel) (run limits program fuel) := by
  intro machine machine' hmachines
  rw [run_eq, run_eq]
  exact lastFlush_abreast hflush (h.passBody (fuel + 1) program.entry machine machine' hmachines)

end Machine

end Bracketry
