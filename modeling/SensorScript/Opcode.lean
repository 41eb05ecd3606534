/-
SensorScript.Opcode — the instruction set.

Every opcode has a byte, a mnemonic and a shape. The shape decides how many
operands it takes, of which kinds, and how the instruction is laid out in
memory.
-/
import SensorScript.Operand

namespace SensorScript

inductive Opcode where
  | add | sub | mul | div
  | shl | shr
  | and | or | xor
  | movB | movW | movDw
  | jnz | jez | jlz | jgz | jgez | jlez
  | call
  | wi2c | ri2c
  deriving DecidableEq

/-- Families of opcodes with the same operands and the same layout. -/
inductive Shape where
  /-- Destination, source and argument. -/
  | alu3
  /-- Destination, which is the source too, and argument. -/
  | alu2
  | mov
  | jump
  | call
  /-- Write to a bus device. -/
  | wi2c
  /-- Read from a bus device. -/
  | ri2c
  deriving DecidableEq

/-- Kinds of operand that a position takes. -/
inductive Accept where
  | register
  | regOrImm
  | regOrMem
  | value
  | label
  | function
  deriving DecidableEq

namespace Accept

def accepts : Accept → Operand → Bool
  | .register, o => o.isRegister
  | .regOrImm, o => o.isRegOrImm
  | .regOrMem, o => o.isRegOrMem
  | .value, o => o.isValue
  | .label, o => o.kind = .label
  | .function, o => o.kind = .function

def describe : Accept → String
  | .register => "register"
  | .regOrImm => "register or immediate"
  | .regOrMem => "register or memory"
  | .value => "register, memory or immediate"
  | .label => "label"
  | .function => "function"

end Accept

namespace Shape

/-- What each operand position takes. -/
def signature : Shape → List Accept
  | .alu3 => [.register, .register, .regOrImm]
  | .alu2 => [.register, .regOrImm]
  | .mov => [.regOrMem, .value]
  | .jump => [.regOrImm, .label]
  | .call => [.function]
  | .wi2c => [.regOrImm, .regOrImm, .regOrImm]
  | .ri2c => [.register, .regOrImm, .regOrImm]

/-- Number of operands. -/
def arity (s : Shape) : Nat := s.signature.length

end Shape

namespace Opcode

/-- All opcodes. -/
def all : List Opcode := [
  .add, .sub, .mul, .div, .shl, .shr, .and, .or, .xor, .movB, .movW, .movDw,
  .jnz, .jez, .jlz, .jgz, .jgez, .jlez, .call, .wi2c, .ri2c]

/-- The number that stands for the opcode in an encoded instruction. -/
def byte : Opcode → Nat
  | .add => 0x01
  | .sub => 0x02
  | .mul => 0x03
  | .div => 0x04
  | .shl => 0x05
  | .shr => 0x06
  | .and => 0x07
  | .or => 0x08
  | .xor => 0x09
  | .movB => 0x10
  | .movW => 0x11
  | .movDw => 0x12
  | .jnz => 0x20
  | .jez => 0x21
  | .jlz => 0x22
  | .jgz => 0x23
  | .jgez => 0x24
  | .jlez => 0x25
  | .call => 0x30
  | .wi2c => 0x38
  | .ri2c => 0x39

/-- The word that the opcode is written as. -/
def mnemonic : Opcode → String
  | .add => "ADD"
  | .sub => "SUB"
  | .mul => "MUL"
  | .div => "DIV"
  | .shl => "SHL"
  | .shr => "SHR"
  | .and => "AND"
  | .or => "OR"
  | .xor => "XOR"
  | .movB => "MOVB"
  | .movW => "MOVW"
  | .movDw => "MOVDW"
  | .jnz => "JNZ"
  | .jez => "JEZ"
  | .jlz => "JLZ"
  | .jgz => "JGZ"
  | .jgez => "JGEZ"
  | .jlez => "JLEZ"
  | .call => "CALL"
  | .wi2c => "WI2C"
  | .ri2c => "RI2C"

def shape : Opcode → Shape
  | .add | .sub | .mul | .div | .and | .or | .xor => .alu3
  | .shl | .shr => .alu2
  | .movB | .movW | .movDw => .mov
  | .jnz | .jez | .jlz | .jgz | .jgez | .jlez => .jump
  | .call => .call
  | .wi2c => .wi2c
  | .ri2c => .ri2c

/-- Number of operands. -/
def arity (op : Opcode) : Nat := op.shape.arity

/-- The opcode with a given byte. -/
def ofByte? (n : Nat) : Option Opcode := all.find? (fun op => op.byte = n)

/-- A second spelling of the opcode that moves a double word. -/
def movAlias : Text := "MOV".toList

/-- The opcode that a word is, in upper case as it stands. -/
def ofMnemonic? (word : Text) : Option Opcode :=
  if word = movAlias then some .movDw
  else all.find? (fun op => op.mnemonic.toList = word)

theorem mem_all (op : Opcode) : op ∈ all := by cases op <;> decide

@[simp] theorem ofByte?_byte (op : Opcode) : ofByte? op.byte = some op := by cases op <;> rfl

theorem ofMnemonic?_mnemonic (op : Opcode) : ofMnemonic? op.mnemonic.toList = some op := by
  cases op <;> decide

/-- Every opcode byte fits the six bits that an instruction has for it. -/
theorem byte_lt (op : Opcode) : op.byte < 64 := by cases op <;> decide

end Opcode

end SensorScript
