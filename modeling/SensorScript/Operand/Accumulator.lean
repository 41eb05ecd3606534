/-
SensorScript.Operand.Accumulator — literals read within 32 bits.

`Numeral.read?` computes a number without a bound and judges it afterwards. A
reader that has 32 bits and no more takes byte after byte into an accumulator
and gives up where a product or a sum does not fit. What is a literal is decided
before by another reader. On its own this one would also take a plus sign in front,
and letters up to the base.
-/
import SensorScript.Operand.Bytewise

namespace SensorScript.Operand.Accumulator

/-- Why bytes are no number of 32 bits. -/
inductive Refusal where
  | empty
  | invalidDigit
  | overflow
  deriving DecidableEq

/-! ## §1 Digits -/

def checkedMul (a b : UInt32) : Option UInt32 :=
  if a.toNat * b.toNat < UInt32.size then some (a * b) else none

def checkedAdd (a b : UInt32) : Option UInt32 :=
  if a.toNat + b.toNat < UInt32.size then some (a + b) else none

/-- What a byte is worth as a digit; letters of either case go on after nine. -/
def worth? (b : UInt8) : Option Nat :=
  if 0x30 ≤ b ∧ b ≤ 0x39 then some (b.toNat - 0x30)
  else if 0x61 ≤ b ∧ b ≤ 0x7A then some (b.toNat - 0x61 + 10)
  else if 0x41 ≤ b ∧ b ≤ 0x5A then some (b.toNat - 0x41 + 10)
  else none

/-- What a byte is worth as a digit of a base. -/
def digit? (base : UInt32) (b : UInt8) : Option UInt32 :=
  match worth? b with
  | some d => if d < base.toNat then some (UInt32.ofNat d) else none
  | none => none

/-- Takes one more byte in. That it is no digit is told before an overflow. -/
def step (base result : UInt32) (b : UInt8) : Except Refusal UInt32 :=
  match digit? base b with
  | none => .error .invalidDigit
  | some d =>
    match (checkedMul result base).bind fun product => checkedAdd product d with
    | none => .error .overflow
    | some sum => .ok sum

/-! ## §2 Numbers -/

/-- Takes bytes in, the first of them first. -/
def run (base : UInt32) : UInt32 → Bytes → Except Refusal UInt32
  | result, [] => .ok result
  | result, b :: bytes => do
    let result ← step base result b
    run base result bytes

/-- The number that bytes are, with a plus sign in front or without. -/
def parse (base : UInt32) : Bytes → Except Refusal UInt32
  | [] => .error .empty
  | b :: bytes =>
    if b = Utf8.asciiByte '+' ∧ bytes ≠ [] then run base 0 bytes
    else run base 0 (b :: bytes)

/-- Value of a 32-bit literal. -/
def readLiteral (allowHex : Bool) (t : Text) : Except Bytewise.Misstep (Option UInt32) := do
  match ← Bytewise.radix? allowHex t with
  | none => return none
  | some .decimal => return (parse 10 (Utf8.encode t)).toOption
  | some .hex =>
    let digits ← Bytewise.sliceFrom t 2
    return (parse 16 (Utf8.encode digits)).toOption

end SensorScript.Operand.Accumulator
