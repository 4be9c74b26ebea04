import Std.Data.ExtTreeMap

/-!
# Memory

* `Memory` : byte cells with addresses from zero on;
* `Memory.zeroed`, `Memory.get?`, `Memory.set`, `Memory.set?` : memory full of zeros, and access to one cell;
* `Memory.nonzero` : the cells that are not zero;
* `get?_set` : what a cell holds after another or the same one has been set.
-/

namespace Bracketry

/-- The byte cells of a program. Only those that are not zero take up room, so that size costs nothing. -/
structure Memory where
  size : Nat
  /-- The cells that are not zero, by address. -/
  cells : Std.ExtTreeMap Nat UInt8
deriving DecidableEq

namespace Memory

def zeroed (size : Nat) : Memory := ⟨size, ∅⟩

@[inline] def get? (memory : Memory) (address : Nat) : Option UInt8 :=
  if address < memory.size then some (memory.cells.getD address 0) else none

/-- The memory with another value at an address; without such a cell, the memory as it is. -/
def set (memory : Memory) (address : Nat) (value : UInt8) : Memory :=
  if address < memory.size then
    ⟨memory.size, if value = 0 then memory.cells.erase address else memory.cells.insert address value⟩
  else memory

def set? (memory : Memory) (address : Nat) (value : UInt8) : Option Memory :=
  if address < memory.size then some (memory.set address value) else none

/-- The cells that are not zero, with their addresses in ascending order. -/
def nonzero (memory : Memory) : List (Nat × UInt8) := memory.cells.toList

@[simp] theorem size_zeroed (size : Nat) : (zeroed size).size = size := rfl

theorem get?_zeroed (size address : Nat) : (zeroed size).get? address = if address < size then some 0 else none := by
  simp [zeroed, get?]

@[simp] theorem size_set (memory : Memory) (address : Nat) (value : UInt8) :
    (memory.set address value).size = memory.size := by
  unfold set
  split <;> rfl

theorem get?_set (memory : Memory) (address other : Nat) (value : UInt8) :
    (memory.set address value).get? other =
      if other = address ∧ address < memory.size then some value else memory.get? other := by
  by_cases hsize : address < memory.size
  · by_cases hzero : value = 0 <;> by_cases heq : other = address
    · simp [set, get?, hsize, hzero, heq]
    · simp [set, get?, hsize, hzero, heq, Std.ExtTreeMap.getD_erase, Ne.symm heq]
    · simp [set, get?, hsize, hzero, heq]
    · simp [set, get?, hsize, hzero, heq, Std.ExtTreeMap.getD_insert, Ne.symm heq]
  · simp [set, hsize]

theorem get?_eq_none_iff (memory : Memory) (address : Nat) :
    memory.get? address = none ↔ memory.size ≤ address := by
  simp [get?]

end Memory

end Bracketry
