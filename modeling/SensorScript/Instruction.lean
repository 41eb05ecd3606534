/-
SensorScript.Instruction — an opcode with its operands.

An `Operation` is what is encoded and decoded. An `Instruction` is an
operation with the place it has in a script. Operands are checked against the
signature of the opcode's shape: first their number, then each kind.
-/
import SensorScript.Opcode

namespace SensorScript

/-- Operands that do not fit an opcode. -/
inductive ShapeMismatch where
  | arity (expected found : Nat)
  /-- The operand at `position`, counted from zero, is of a wrong kind. -/
  | kind (position : Nat) (expected : Accept) (found : OperandKind)
  deriving DecidableEq

def ShapeMismatch.message : ShapeMismatch → String
  | .arity expected found => s!"expected {expected} operands, found {found}"
  | .kind position expected found =>
    s!"operand {position}: expected {expected.describe}, found {found.name}"

/-- An opcode applied to operands. -/
structure Operation where
  opcode : Opcode
  operands : List Operand
  deriving DecidableEq

/-- An operation in a script. -/
structure Instruction where
  operation : Operation
  /-- Index of the function that the instruction is in. -/
  owner : Nat
  /-- Number of the source line it was read from. -/
  line : Nat
  deriving DecidableEq

/-- The first operand from `position` on that is not of an accepted kind. -/
def firstMismatch : Nat → List Accept → List Operand → Option ShapeMismatch
  | position, a :: as, o :: os =>
    if a.accepts o then firstMismatch (position + 1) as os
    else some (.kind position a o.kind)
  | _, _, _ => none

/-- Checks operands against an opcode's signature. -/
def checkShape (op : Opcode) (operands : List Operand) : Except ShapeMismatch Unit :=
  if op.arity ≠ operands.length then .error (.arity op.arity operands.length)
  else match firstMismatch 0 op.shape.signature operands with
    | some mismatch => .error mismatch
    | none => .ok ()

namespace Operation

/-- Operands are set apart by a comma and a space. -/
def operandsText : List Operand → Text
  | [] => []
  | [o] => o.text
  | o :: os => o.text ++ [',', ' '] ++ operandsText os

/-- The operation as it is written in a script. -/
def text (x : Operation) : Text :=
  x.opcode.mnemonic.toList ++
    if x.operands = [] then [] else ' ' :: operandsText x.operands

def check (x : Operation) : Except ShapeMismatch Unit := checkShape x.opcode x.operands

end Operation

end SensorScript
