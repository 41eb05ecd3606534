/-
SensorScript.MachineWord — encoded instructions and where their bits are.

An instruction is encoded in two parts of 32 bits. The first holds the opcode
in its top six bits and fields that depend on the shape of the opcode; the
second holds the one operand that needs a full 32 bits. The fields of one
shape do not overlap. A field is a value here, so writing and reading share
its place and its width.

  arithmetic   destination 25-20, source 19-14, argument type 13-12
  move         destination type 25-24, bank 23, offset type 22, value 21-12,
               source type 11-10, bank 9, offset type 8, register 7-0
  jump         condition type 25-24, target 23-0
  call         target 23-0
  bus          address type 25, value type 24, length type 23,
               length 22-16, address 15-0
-/

namespace SensorScript

/-- One encoded instruction. -/
structure MachineWord where
  part1 : UInt32
  part2 : UInt32
  deriving DecidableEq, Inhabited

/-- A run of bits in the first part. -/
structure Field where
  /-- What the field holds, for errors. -/
  name : String
  /-- Number of bits below the field. -/
  offset : Nat
  /-- Number of bits of the field. -/
  width : Nat
  deriving DecidableEq

namespace Field

/-- A value that the field can hold. -/
def Holds (f : Field) (v : Nat) : Prop := v < 1 <<< f.width

instance (f : Field) (v : Nat) : Decidable (f.Holds v) := inferInstanceAs (Decidable (_ < _))

/-- The value in its place, all other bits zero. -/
def place (f : Field) (v : Nat) : Nat := v <<< f.offset

/-- The field's value in a first part. -/
def get (f : Field) (part1 : UInt32) : Nat := part1.toNat >>> f.offset % (1 <<< f.width)

/-- What a field is found to hold, it can hold. -/
theorem holds_get (f : Field) (part1 : UInt32) : f.Holds (f.get part1) := by
  refine Nat.mod_lt _ ?_
  rw [Nat.shiftLeft_eq, Nat.one_mul]
  exact Nat.two_pow_pos _

end Field

/-! ## §1 Fields -/

namespace Field

def opcode : Field := ⟨"opcode", 26, 6⟩

def aluDestination : Field := ⟨"destination register", 20, 6⟩
def aluSource : Field := ⟨"source register", 14, 6⟩
def aluArgumentType : Field := ⟨"argument type", 12, 2⟩

def movDestinationType : Field := ⟨"destination type", 24, 2⟩
def movDestinationBank : Field := ⟨"destination bank", 23, 1⟩
def movDestinationOffsetType : Field := ⟨"destination offset type", 22, 1⟩
def movDestinationRegister : Field := ⟨"destination register", 12, 10⟩
def movDestinationOffset : Field := ⟨"destination offset", 12, 10⟩
def movSourceType : Field := ⟨"source type", 10, 2⟩
def movSourceBank : Field := ⟨"source bank", 9, 1⟩
def movSourceOffsetType : Field := ⟨"source offset type", 8, 1⟩
def movSourceRegister : Field := ⟨"source register", 0, 8⟩
def movSourceOffset : Field := ⟨"source offset register", 0, 8⟩

def jumpConditionType : Field := ⟨"condition type", 24, 2⟩
def jumpTarget : Field := ⟨"jump target", 0, 24⟩
def callTarget : Field := ⟨"call target", 0, 24⟩

def busAddressType : Field := ⟨"i2c address type", 25, 1⟩
def busValueType : Field := ⟨"i2c value type", 24, 1⟩
def busLengthType : Field := ⟨"i2c length type", 23, 1⟩
def busLength : Field := ⟨"i2c length", 16, 7⟩
def busAddress : Field := ⟨"i2c address", 0, 16⟩

end Field

/-- The six bits that hold the opcode. -/
def MachineWord.opcodeBits (w : MachineWord) : Nat := Field.opcode.get w.part1

/-! ## §2 Type codes -/

/-- Codes of operand types and of offset types. -/
def registerCode : Nat := 0
def immediateCode : Nat := 1
def memoryCode : Nat := 2

end SensorScript
