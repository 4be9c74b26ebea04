import Bracketry.Error

/-!
# Limits

* `Limits` : how many cells a program may address, and how many applications may be active at once;
* `Limits.checkAddress` : a number as an address, if it names a cell.
-/

namespace Bracketry

/-- The limits under which programs are run and written in C. -/
structure Limits where
  /-- Cells that a program may address, from zero on. -/
  dataSize : Nat := 10000
  /-- Applications that may be active at once. -/
  maxCallDepth : Nat := 256
deriving DecidableEq, Repr

/-- A number as an address, if it names a cell that a program may touch. -/
@[inline] def Limits.checkAddress (limits : Limits) (address : Int64) : Except Error Nat :=
  if 0 ≤ address.toInt ∧ address.toInt < limits.dataSize then .ok address.toInt.toNat
  else .error (.addressOutOfRange address)

end Bracketry
