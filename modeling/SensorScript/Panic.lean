/-
SensorScript.Panic — calls that do not return.

Memory is reserved in blocks. To ask for a block that is larger than any block
can be is not an error that is reported: the call panics, and so does every call
that it was made by.
-/

namespace SensorScript

/-- Why a call does not return. -/
inductive Panic where
  | capacityOverflow
  deriving DecidableEq

def Panic.message : Panic → String
  | .capacityOverflow => "capacity overflow"

/-- What a call comes to when it may panic. -/
abbrev Attempt (α : Type) := Except Panic α

/-- Number of bytes that no block of memory exceeds. -/
def maxBlock : Nat := 0x7FFFFFFFFFFFFFFF

/-- Reserves a block for a number of items of one size. -/
def reserve (itemSize count : Nat) : Attempt Unit :=
  if itemSize * count ≤ maxBlock then .ok () else .error .capacityOverflow

end SensorScript
