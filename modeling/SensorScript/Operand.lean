/-
SensorScript.Operand — what an instruction works on.

A register, an immediate number, a place in one of the two memory banks, or a
reference to a label or a function by name. A reference carries the index it
was resolved to, once it has been.
-/
import SensorScript.Text.Numeral

namespace SensorScript

/-- One of the two memory banks. -/
inductive Bank where
  | m0
  | m1
  deriving DecidableEq

/-- The number of the bank. -/
def Bank.index : Bank → Nat
  | .m0 => 0
  | .m1 => 1

/-- The bank that a bank bit selects. -/
def Bank.ofIndex : Nat → Bank
  | 0 => .m0
  | _ => .m1

@[simp] theorem Bank.ofIndex_index (b : Bank) : Bank.ofIndex b.index = b := by cases b <;> rfl

/-- Where in a bank. -/
inductive Offset where
  | register (index : UInt8)
  | immediate (value : UInt32)
  deriving DecidableEq

/-- A place in memory. -/
structure Memory where
  bank : Bank
  offset : Offset
  deriving DecidableEq

/-- A reference by name, and the index it stands for once it is resolved. -/
structure Symbol where
  name : Text
  index : Option UInt32 := none
  deriving DecidableEq

inductive Operand where
  | register (index : UInt8)
  | immediate (value : UInt32)
  | memory (place : Memory)
  | label (symbol : Symbol)
  | function (symbol : Symbol)
  deriving DecidableEq

/-- The five kinds of operand. -/
inductive OperandKind where
  | register
  | immediate
  | memory
  | label
  | function
  deriving DecidableEq

def OperandKind.name : OperandKind → String
  | .register => "register"
  | .immediate => "immediate"
  | .memory => "memory"
  | .label => "label"
  | .function => "function"

namespace Operand

def kind : Operand → OperandKind
  | .register _ => .register
  | .immediate _ => .immediate
  | .memory _ => .memory
  | .label _ => .label
  | .function _ => .function

/-! ## §1 Classes that signatures ask for -/

def isRegister : Operand → Bool
  | .register _ => true
  | _ => false

def isRegOrImm : Operand → Bool
  | .register _ => true
  | .immediate _ => true
  | _ => false

def isRegOrMem : Operand → Bool
  | .register _ => true
  | .memory _ => true
  | _ => false

/-- Anything that has a value when the instruction runs. -/
def isValue : Operand → Bool
  | .register _ => true
  | .immediate _ => true
  | .memory _ => true
  | _ => false

/-- The symbol of a reference. -/
def symbol? : Operand → Option Symbol
  | .label s => some s
  | .function s => some s
  | _ => none

end Operand

/-! ## §2 Written form -/

def Offset.text : Offset → Text
  | .register r => 'R' :: Numeral.decimal r.toNat
  | .immediate v => '$' :: Numeral.decimal v.toNat

def Memory.text (m : Memory) : Text :=
  ['M'] ++ Numeral.decimal m.bank.index ++ ['['] ++ m.offset.text ++ [']']

/-- The operand as it is written in a script, numbers in decimal. -/
def Operand.text : Operand → Text
  | .register r => 'R' :: Numeral.decimal r.toNat
  | .immediate v => '$' :: Numeral.decimal v.toNat
  | .memory m => m.text
  | .label s => '@' :: s.name
  | .function s => '@' :: s.name

end SensorScript
