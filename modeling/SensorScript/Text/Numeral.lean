/-
SensorScript.Text.Numeral — number literals and printed numbers.

A literal is decimal digits, or `0x`/`0X` and hexadecimal digits where the
reader allows them. Its value is computed without a bound and then has to
fit 32 bits, so leading zeros cost nothing and nothing wraps.
-/
import SensorScript.Text

namespace SensorScript.Numeral

/-! ## §1 Literals -/

/-- Base of a number literal. -/
inductive Radix where
  | decimal
  | hex
  deriving DecidableEq

/-- The base as a number. -/
def Radix.base : Radix → Nat
  | .decimal => 10
  | .hex => 16

/-- ASCII hexadecimal digits of either case. -/
def isHexDigit (c : Char) : Bool :=
  c.isDigit || ('a' ≤ c && c ≤ 'f') || ('A' ≤ c && c ≤ 'F')

/-- What a digit is worth; only digits are ever asked for. -/
def digitValue (c : Char) : Nat :=
  if c.isDigit then c.toNat - '0'.toNat
  else if 'a' ≤ c then c.toNat - 'a'.toNat + 10
  else c.toNat - 'A'.toNat + 10

/-- Value of a digit sequence, most significant digit first. -/
def value (base : Nat) (digits : Text) : Nat :=
  digits.foldl (fun n c => base * n + digitValue c) 0

/-- The digits after a hexadecimal mark. -/
def hexDigits? : Text → Option Text
  | '0' :: x :: digits =>
    if (x = 'x' ∨ x = 'X') ∧ digits ≠ [] ∧ digits.all isHexDigit then some digits else none
  | _ => none

/-- Base and digits of a literal. -/
def split? (allowHex : Bool) (t : Text) : Option (Radix × Text) :=
  if t = [] then none
  else if t.all Char.isDigit then some (.decimal, t)
  else if allowHex then (hexDigits? t).map fun digits => (.hex, digits)
  else none

/-- Base of the literal that `t` is, if it is one. -/
def radix? (allowHex : Bool) (t : Text) : Option Radix := (split? allowHex t).map (·.1)

/-- Value of a 32-bit literal. -/
def read? (allowHex : Bool) (t : Text) : Option UInt32 :=
  match split? allowHex t with
  | none => none
  | some (radix, digits) =>
    let n := value radix.base digits
    if n < UInt32.size then some (UInt32.ofNat n) else none

/-! ## §2 Printed numbers -/

/-- Decimal digits of a number. -/
def decimal (n : Nat) : Text := Nat.toDigits 10 n

/-- Lower-case hexadecimal digits of a number, at least `width` of them. -/
def hexPadded (width n : Nat) : Text :=
  let digits := Nat.toDigits 16 n
  List.replicate (width - digits.length) '0' ++ digits

/-! ## §3 Equations -/

@[simp] theorem value_nil (base : Nat) : value base [] = 0 := rfl

theorem value_append_digit (base : Nat) (ds : Text) (c : Char) :
    value base (ds ++ [c]) = base * value base ds + digitValue c := by
  simp [value]

end SensorScript.Numeral
