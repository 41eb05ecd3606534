/-
SensorScript.Operand.Bytewise — operands read by byte positions.

`Operand.read` takes a word apart by its characters and reads an offset without
calling itself. A reader that keeps the word in its encoding form looks at its
first bytes, cuts the word at byte positions and reads what stands in brackets
as an operand again. Here is that reader, with everything it could stumble over:
a cut inside a character, a byte that is not there, a number below zero.
-/
import SensorScript.Operand.Grammar
import SensorScript.Text.Slice

namespace SensorScript.Operand.Bytewise

/-- What stops a reader that is not careful. -/
inductive Misstep where
  /-- A cut where no character ends. -/
  | offBoundary (position : Nat)
  | noByte (position : Nat)
  | belowZero
  deriving DecidableEq

/-! ## §1 Careful steps -/

def sliceFrom (t : Text) (position : Nat) : Except Misstep Text :=
  match Utf8.sliceFrom? t position with
  | some s => .ok s
  | none => .error (.offBoundary position)

def byteAt (t : Text) (position : Nat) : Except Misstep UInt8 :=
  match Utf8.byte? t position with
  | some b => .ok b
  | none => .error (.noByte position)

/-- One less, for a number that is not zero. -/
def predecessor : Nat → Except Misstep Nat
  | 0 => .error .belowZero
  | n + 1 => .ok n

/-! ## §2 Literals -/

def isDigitByte (b : UInt8) : Bool := 0x30 ≤ b && b ≤ 0x39

def isHexDigitByte (b : UInt8) : Bool :=
  isDigitByte b || (0x61 ≤ b && b ≤ 0x66) || (0x41 ≤ b && b ≤ 0x46)

/-- Base of the literal that a text is, if it is one. -/
def radix? (allowHex : Bool) (t : Text) : Except Misstep (Option Numeral.Radix) :=
  if t = [] then .ok none
  else if (Utf8.encode t).all isDigitByte then .ok (some .decimal)
  else if allowHex ∧ 2 < Utf8.size t ∧ (['0', 'x'].isPrefixOf t ∨ ['0', 'X'].isPrefixOf t) then do
    let digits ← sliceFrom t 2
    return if (Utf8.encode digits).all isHexDigitByte then some .hex else none
  else .ok none

/-- The number that digits spell, if it fits 32 bits. -/
def fit? (n : Nat) : Option UInt32 := if n < UInt32.size then some (UInt32.ofNat n) else none

/-- Value of a 32-bit literal. -/
def readLiteral (allowHex : Bool) (t : Text) : Except Misstep (Option UInt32) := do
  match ← radix? allowHex t with
  | none => return none
  | some .decimal => return fit? (Numeral.value 10 t)
  | some .hex =>
    let digits ← sliceFrom t 2
    return fit? (Numeral.value 16 digits)

/-! ## §3 Operands -/

def readRegister (limits : Limits) (token : Text) : Except Misstep (Except OperandError UInt8) := do
  let digits ← sliceFrom token 1
  match ← readLiteral false digits with
  | none => return .error (.invalidRegister token)
  | some index =>
    if limits.maxRegisters ≤ index.toNat then
      let last ← predecessor limits.maxRegisters
      return .error (.registerOutOfRange token last)
    else return .ok (UInt8.ofNat index.toNat)

def readImmediate (token : Text) : Except Misstep (Except OperandError UInt32) := do
  let literal ← sliceFrom token 1
  match ← readLiteral true literal with
  | none => return .error (.invalidImmediate token)
  | some value => return .ok value

def readReference (limits : Limits) (context : Context) (token : Text) :
    Except Misstep (Except OperandError Operand) := do
  let name ← sliceFrom token 1
  return (readName limits name).map (reference context)

def bankOfByte? (b : UInt8) : Option Bank :=
  if b = Utf8.asciiByte '0' then some .m0
  else if b = Utf8.asciiByte '1' then some .m1
  else none

theorem length_insideBrackets?_lt {t inside : Text} (h : insideBrackets? t = some inside) :
    inside.length < t.length := by
  rw [insideBrackets?_eq_some_iff.mp h, List.length_cons, List.length_append]
  omega

/-- The bank of a memory operand and the text in its brackets, which is shorter
than the operand. -/
def memoryParts (token : Text) :
    Except Misstep (Option (Bank × { inside : Text // inside.length < token.length })) := do
  let digit ← byteAt token 1
  match bankOfByte? digit with
  | none => return none
  | some bank =>
    match h : Utf8.sliceFrom? token 2 with
    | none => .error (.offBoundary 2)
    | some rest =>
      match h' : insideBrackets? rest with
      | none => return none
      | some inside =>
        return some (bank, ⟨inside, Nat.lt_of_lt_of_le (length_insideBrackets?_lt h')
          (Utf8.length_le_of_sliceFrom? h)⟩)

/-- The operand that a word is. The text in brackets is read as a word of its own. -/
def read (limits : Limits) (context : Context) (token : Text) :
    Except Misstep (Except OperandError Operand) :=
  if Utf8.size token < 2 then return .error (.tooShort token)
  else do
    let sigil ← byteAt token 0
    if sigil = Utf8.asciiByte 'R' then return (← readRegister limits token).map .register
    else if sigil = Utf8.asciiByte '$' then return (← readImmediate token).map .immediate
    else if sigil = Utf8.asciiByte '@' then readReference limits context token
    else if sigil = Utf8.asciiByte 'M' then
      match ← memoryParts token with
      | none => return .error (.invalidMemory token)
      | some (bank, ⟨inside, _⟩) =>
        match ← read limits .plain inside with
        | .ok (.register r) => return .ok (.memory ⟨bank, .register r⟩)
        | .ok (.immediate v) => return .ok (.memory ⟨bank, .immediate v⟩)
        | _ => return .error (.invalidMemoryOffset token)
    else return .error (.unknownSigil token)
termination_by token.length

end SensorScript.Operand.Bytewise
