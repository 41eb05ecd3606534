/-
SensorScript.MachineWord.Decode — operations read back from machine words.

References come back by index, and the decimal text of the index is their
name. A register keeps the low eight bits of the field it is read from, and
the source of a move is memory unless its type code says register or
immediate.
-/
import SensorScript.Instruction
import SensorScript.MachineWord
import SensorScript.Text.Column

namespace SensorScript

/-- Why a machine word is no operation. -/
inductive DecodeError where
  | unknownOpcode (byte : Nat)
  | invalidOperandType (opcode : Opcode) (code : Nat)
  deriving DecidableEq

def DecodeError.message : DecodeError → String
  | .unknownOpcode byte => s!"unknown opcode: 0x{(Numeral.hexPadded 2 byte).toStr}"
  | .invalidOperandType op code => s!"invalid operand type {code} in {op.mnemonic}"

/-- A reference to what has the given index. -/
def Symbol.ofIndex (index : Nat) : Symbol :=
  { name := Numeral.decimal index, index := some (UInt32.ofNat index) }

namespace Operand

/-- The register or immediate that a type code and a value stand for. -/
def ofCode (op : Opcode) (code value : Nat) : Except DecodeError Operand :=
  if code = registerCode then .ok (.register (UInt8.ofNat value))
  else if code = immediateCode then .ok (.immediate (UInt32.ofNat value))
  else .error (.invalidOperandType op code)

/-- The place that a bank bit, an offset type bit and a value stand for. -/
def ofBank (bank offsetCode value : Nat) : Operand :=
  .memory {
    bank := Bank.ofIndex bank
    offset :=
      if offsetCode = immediateCode then .immediate (UInt32.ofNat value)
      else .register (UInt8.ofNat value) }

end Operand

namespace MachineWord

/-! ## §1 Moves -/

def movDestination (w : MachineWord) (op : Opcode) : Except DecodeError Operand :=
  let value := Field.movDestinationOffset.get w.part1
  let code := Field.movDestinationType.get w.part1
  if code = registerCode then .ok (.register (UInt8.ofNat value))
  else if code = memoryCode then
    .ok (.ofBank (Field.movDestinationBank.get w.part1)
      (Field.movDestinationOffsetType.get w.part1) value)
  else .error (.invalidOperandType op code)

def movSource (w : MachineWord) : Operand :=
  let register := Field.movSourceRegister.get w.part1
  let code := Field.movSourceType.get w.part1
  if code = registerCode then .register (UInt8.ofNat register)
  else if code = immediateCode then .immediate w.part2
  else
    let offsetCode := Field.movSourceOffsetType.get w.part1
    .ofBank (Field.movSourceBank.get w.part1) offsetCode
      (if offsetCode = immediateCode then w.part2.toNat else register)

/-! ## §2 Operations -/

/-- The operands of a word whose opcode is known. -/
def operands (w : MachineWord) (op : Opcode) : Except DecodeError (List Operand) :=
  let register (f : Field) : Operand := .register (UInt8.ofNat (f.get w.part1))
  match op.shape with
  | .alu3 => do
    let argument ← Operand.ofCode op (Field.aluArgumentType.get w.part1) w.part2.toNat
    return [register .aluDestination, register .aluSource, argument]
  | .alu2 => do
    let argument ← Operand.ofCode op (Field.aluArgumentType.get w.part1) w.part2.toNat
    return [register .aluDestination, argument]
  | .mov => do
    let destination ← w.movDestination op
    return [destination, w.movSource]
  | .jump => do
    let condition ← Operand.ofCode op (Field.jumpConditionType.get w.part1) w.part2.toNat
    return [condition, .label (.ofIndex (Field.jumpTarget.get w.part1))]
  | .call => .ok [.function (.ofIndex (Field.callTarget.get w.part1))]
  | .wi2c => do
    let address ← Operand.ofCode op (Field.busAddressType.get w.part1) (Field.busAddress.get w.part1)
    let length ← Operand.ofCode op (Field.busLengthType.get w.part1) (Field.busLength.get w.part1)
    let value ← Operand.ofCode op (Field.busValueType.get w.part1) w.part2.toNat
    return [address, value, length]
  | .ri2c => do
    let address ← Operand.ofCode op (Field.busAddressType.get w.part1) (Field.busAddress.get w.part1)
    let length ← Operand.ofCode op (Field.busLengthType.get w.part1) (Field.busLength.get w.part1)
    return [.register (UInt8.ofNat w.part2.toNat), address, length]

/-- The operation that a word stands for. -/
def decode (w : MachineWord) : Except DecodeError Operation :=
  match Opcode.ofByte? w.opcodeBits with
  | none => .error (.unknownOpcode w.opcodeBits)
  | some op => do
    let operands ← w.operands op
    return ⟨op, operands⟩

/-! ## §3 Listings -/

/-- Both parts in hexadecimal. -/
def hex (w : MachineWord) : Text :=
  Numeral.hexPadded 8 w.part1.toNat ++ [' '] ++ Numeral.hexPadded 8 w.part2.toNat

/-- Numbered lines for words, the first of which has the given index. -/
def listingFrom (index : Nat) : List MachineWord → Except DecodeError (List Text)
  | [] => .ok []
  | w :: ws => do
    let x ← w.decode
    let line := Column.right 4 (Numeral.decimal index) ++ [':', ' '] ++ w.hex ++ [' ', ' '] ++ x.text
    let lines ← listingFrom (index + 1) ws
    return line :: lines

/-- A numbered line for each word. -/
def listing (ws : List MachineWord) : Except DecodeError (List Text) := listingFrom 0 ws

end MachineWord

end SensorScript
