/-
SensorScript.MachineWord.Encode — operations laid out as machine words.

An operation that fits its signature is first laid out: every field gets its
value, in the order in which values are judged, and the second part is
chosen. Packing then refuses the first value that its field cannot hold, so
no value is cut and none spills into a neighbour.
-/
import SensorScript.Instruction
import SensorScript.MachineWord

namespace SensorScript

/-- Why an operation has no machine word. -/
inductive EncodeFault where
  | shape (opcode : Opcode) (mismatch : ShapeMismatch)
  | unresolved (name : Text)
  | fieldOverflow (field : Field) (value : Nat)
  deriving DecidableEq

/-- A fault and the index of the instruction it was found in. -/
structure EncodeError where
  index : Nat
  fault : EncodeFault
  deriving DecidableEq

def EncodeError.message (e : EncodeError) : String :=
  match e.fault with
  | .shape op mismatch => s!"instruction {e.index} ({op.mnemonic}): {mismatch.message}"
  | .unresolved name => s!"instruction {e.index}: unresolved reference '{name.toStr}'"
  | .fieldOverflow field value =>
    s!"instruction {e.index}: {field.name} value {value} does not fit in {field.width} bits"

namespace Operand

/-- Code of the operand's type. -/
def typeCode : Operand → Nat
  | .immediate _ => immediateCode
  | .memory _ => memoryCode
  | _ => registerCode

/-- A register's index or an immediate's value. -/
def number : Operand → UInt32
  | .register r => r.toUInt32
  | .immediate v => v
  | _ => 0

/-- The index that a reference was resolved to. -/
def target : Operand → Except EncodeFault UInt32
  | .label s | .function s =>
    match s.index with
    | some i => .ok i
    | none => .error (.unresolved s.name)
  | _ => .ok 0

end Operand

/-! ## §1 Layout -/

/-- Field values of a first part, and the second part. -/
structure Layout where
  fields : List (Field × Nat)
  part2 : UInt32

namespace Layout

/-- Fields of the destination of a move. -/
def movDestination : Operand → List (Field × Nat)
  | .register r => [
      (.movDestinationType, registerCode),
      (.movDestinationRegister, r.toNat)]
  | .memory ⟨bank, .register r⟩ => [
      (.movDestinationType, memoryCode),
      (.movDestinationBank, bank.index),
      (.movDestinationOffsetType, registerCode),
      (.movDestinationOffset, r.toNat)]
  | .memory ⟨bank, .immediate v⟩ => [
      (.movDestinationType, memoryCode),
      (.movDestinationBank, bank.index),
      (.movDestinationOffsetType, immediateCode),
      (.movDestinationOffset, v.toNat)]
  | _ => []

/-- Fields of the source of a move, and the second part. -/
def movSource : Operand → Layout
  | .register r =>
    { fields := [(.movSourceType, registerCode), (.movSourceRegister, r.toNat)], part2 := 0 }
  | .immediate v =>
    { fields := [(.movSourceType, immediateCode)], part2 := v }
  | .memory ⟨bank, .register r⟩ =>
    { fields := [
        (.movSourceType, memoryCode),
        (.movSourceBank, bank.index),
        (.movSourceOffsetType, registerCode),
        (.movSourceOffset, r.toNat)],
      part2 := 0 }
  | .memory ⟨bank, .immediate v⟩ =>
    { fields := [
        (.movSourceType, memoryCode),
        (.movSourceBank, bank.index),
        (.movSourceOffsetType, immediateCode)],
      part2 := v }
  | _ => { fields := [], part2 := 0 }

/-- Fields that reading from and writing to the bus share; length before address. -/
def busAccess (address length : Operand) : List (Field × Nat) := [
  (.busAddressType, address.typeCode),
  (.busLengthType, length.typeCode),
  (.busLength, length.number.toNat),
  (.busAddress, address.number.toNat)]

/-- Layout of operands that fit the shape. -/
def ofOperands : Shape → List Operand → Except EncodeFault Layout
  | .alu3, [destination, source, argument] =>
    .ok {
      fields := [
        (.aluDestination, destination.number.toNat),
        (.aluSource, source.number.toNat),
        (.aluArgumentType, argument.typeCode)]
      part2 := argument.number }
  | .alu2, [destination, argument] =>
    .ok {
      fields := [
        (.aluDestination, destination.number.toNat),
        (.aluSource, destination.number.toNat),
        (.aluArgumentType, argument.typeCode)]
      part2 := argument.number }
  | .mov, [destination, source] =>
    .ok {
      fields := movDestination destination ++ (movSource source).fields
      part2 := (movSource source).part2 }
  | .jump, [condition, label] => do
    let target ← label.target
    return {
      fields := [(.jumpConditionType, condition.typeCode), (.jumpTarget, target.toNat)]
      part2 := condition.number }
  | .call, [function] => do
    let target ← function.target
    return { fields := [(.callTarget, target.toNat)], part2 := 0 }
  | .wi2c, [address, value, length] =>
    .ok {
      fields := busAccess address length ++ [(.busValueType, value.typeCode)]
      part2 := value.number }
  | .ri2c, [destination, address, length] =>
    .ok { fields := busAccess address length, part2 := destination.number }
  | _, _ => .ok { fields := [], part2 := 0 }

end Layout

/-! ## §2 Packing -/

/-- The number whose fields have the given values. The fields do not overlap,
so their sum sets the bits of each. -/
def pack : List (Field × Nat) → Except EncodeFault Nat
  | [] => .ok 0
  | (f, v) :: rest =>
    if f.Holds v then (pack rest).map (f.place v + ·)
    else .error (.fieldOverflow f v)

/-- The machine word of an operation. -/
def Operation.encode (x : Operation) : Except EncodeFault MachineWord := do
  x.check.mapError (.shape x.opcode)
  let layout ← Layout.ofOperands x.opcode.shape x.operands
  let part1 ← pack ((.opcode, x.opcode.byte) :: layout.fields)
  return ⟨UInt32.ofNat part1, layout.part2⟩

/-- The machine word of the operation at an index. -/
def encodeAt (index : Nat) (x : Operation) : Except EncodeError MachineWord :=
  x.encode.mapError fun fault => ⟨index, fault⟩

/-- Machine words of operations; `index` is the index of the first. -/
def encodeFrom (index : Nat) : List Operation → Except EncodeError (List MachineWord)
  | [] => .ok []
  | x :: xs => do
    let w ← encodeAt index x
    let ws ← encodeFrom (index + 1) xs
    return w :: ws

/-- Machine words of the instructions of a script. -/
def encodeAll (is : List Instruction) : Except EncodeError (List MachineWord) :=
  encodeFrom 0 (is.map (·.operation))

end SensorScript
