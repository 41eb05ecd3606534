/-
SensorScript.Operand.Grammar — operands read from words.

The first character tells what a word is: `R` and decimal digits a register,
`$` and a literal an immediate, `@` and a name a reference, and `M0[…]` or
`M1[…]` around a register or an immediate a place in memory. The offset in
brackets is a register or an immediate itself and never memory again, so no
recursion is needed.
-/
import SensorScript.Limits
import SensorScript.Operand
import SensorScript.Text.Utf8

namespace SensorScript

/-- Why a word is no operand, or a name no symbol name. -/
inductive OperandError where
  | tooShort (token : Text)
  | unknownSigil (token : Text)
  | invalidRegister (token : Text)
  | registerOutOfRange (token : Text) (max : Nat)
  | invalidImmediate (token : Text)
  | invalidName (name : Text)
  | nameTooLong (name : Text) (max : Nat)
  | invalidMemory (token : Text)
  | invalidMemoryOffset (token : Text)
  deriving DecidableEq

def OperandError.message : OperandError → String
  | .tooShort token => s!"operand too short: '{token.toStr}'"
  | .unknownSigil token => s!"unknown operand sigil: '{token.toStr}'"
  | .invalidRegister token => s!"invalid register: '{token.toStr}'"
  | .registerOutOfRange token max => s!"register out of range: '{token.toStr}' (R0-R{max})"
  | .invalidImmediate token => s!"invalid immediate: '{token.toStr}'"
  | .invalidName name => s!"invalid symbol name: '{name.toStr}'"
  | .nameTooLong name max => s!"symbol name too long: '{name.toStr}' (max {max} characters)"
  | .invalidMemory token => s!"invalid memory operand: '{token.toStr}'"
  | .invalidMemoryOffset token =>
    s!"memory offset must be a register or immediate: '{token.toStr}'"

/-- Where an operand stands: a reference names a function only in a call. -/
inductive Context where
  | plain
  | call
  deriving DecidableEq

namespace Operand

/-! ## §1 Names -/

/-- Characters that no symbol name holds. -/
def isReserved (c : Char) : Bool := c = '@' || c = '$' || c = '[' || c = ']' || c = ':'

/-- The name of a label or function. -/
def readName (limits : Limits) (name : Text) : Except OperandError Text :=
  if name = [] ∨ name.any isReserved then .error (.invalidName name)
  else if limits.maxNameLen < name.length then .error (.nameTooLong name limits.maxNameLen)
  else .ok name

/-! ## §2 Registers and immediates -/

/-- A register; `digits` follow the `R` of `token`. -/
def readRegister (limits : Limits) (token digits : Text) : Except OperandError UInt8 :=
  match Numeral.read? false digits with
  | none => .error (.invalidRegister token)
  | some index =>
    if limits.maxRegisters ≤ index.toNat then
      .error (.registerOutOfRange token (limits.maxRegisters - 1))
    else .ok (UInt8.ofNat index.toNat)

/-- An immediate; `literal` follows the `$` of `token`. -/
def readImmediate (token literal : Text) : Except OperandError UInt32 :=
  match Numeral.read? true literal with
  | none => .error (.invalidImmediate token)
  | some value => .ok value

/-! ## §3 Memory -/

/-- The offset between the brackets of a memory operand. -/
def readOffset? (limits : Limits) : Text → Option Offset
  | token@('R' :: digits) => (readRegister limits token digits).toOption.map .register
  | token@('$' :: literal) => (readImmediate token literal).toOption.map .immediate
  | _ => none

def readBank? : Char → Option Bank
  | '0' => some .m0
  | '1' => some .m1
  | _ => none

/-- The text between an opening bracket and a closing one at the very end. -/
def insideBrackets? : Text → Option Text
  | '[' :: rest => if rest.getLast? = some ']' then some rest.dropLast else none
  | _ => none

/-- A memory place; `rest` follows the `M` of `token`. -/
def readMemory (limits : Limits) (token rest : Text) : Except OperandError Memory :=
  match rest with
  | [] => .error (.invalidMemory token)
  | c :: rest =>
    match readBank? c, insideBrackets? rest with
    | some bank, some inside =>
      match readOffset? limits inside with
      | some offset => .ok ⟨bank, offset⟩
      | none => .error (.invalidMemoryOffset token)
    | _, _ => .error (.invalidMemory token)

/-! ## §4 Operands -/

/-- A reference to the function or label that `context` asks for. -/
def reference (context : Context) (name : Text) : Operand :=
  match context with
  | .plain => .label { name }
  | .call => .function { name }

/-- The operand that a word is. A word of a single byte is too short for any. -/
def read (limits : Limits) (context : Context) (token : Text) : Except OperandError Operand :=
  if Utf8.size token < 2 then .error (.tooShort token)
  else match token with
    | 'R' :: digits => (readRegister limits token digits).map .register
    | '$' :: literal => (readImmediate token literal).map .immediate
    | '@' :: name => (readName limits name).map (reference context)
    | 'M' :: rest => (readMemory limits token rest).map .memory
    | _ => .error (.unknownSigil token)

/-! ## §5 Equations -/

theorem insideBrackets?_brackets (inside : Text) :
    insideBrackets? ('[' :: (inside ++ [']'])) = some inside := by
  rw [insideBrackets?, if_pos List.getLast?_concat, List.dropLast_concat]

theorem insideBrackets?_eq_some_iff {t inside : Text} :
    insideBrackets? t = some inside ↔ t = '[' :: (inside ++ [']']) := by
  constructor
  · intro h
    unfold insideBrackets? at h
    split at h
    next rest =>
      split at h
      next hlast =>
        cases h
        obtain ⟨inside, rfl⟩ := List.getLast?_eq_some_iff.mp hlast
        rw [List.dropLast_concat]
      · cases h
    · cases h
  · rintro rfl
    exact insideBrackets?_brackets inside

end Operand

end SensorScript
