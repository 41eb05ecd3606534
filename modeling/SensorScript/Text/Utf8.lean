/-
SensorScript.Text.Utf8 — the UTF-8 encoding form of text.

A character takes one to four bytes. The first byte tells how many follow,
and every following byte carries six bits. The reader takes only shortest
forms of scalar values: a longer form of a smaller number, a surrogate and
a number above 0x10FFFF are refused, so each text has one encoding.
-/
import SensorScript.Text

namespace SensorScript.Utf8

/-! ## §1 Writing -/

/-- The bytes of one character. -/
def encodeChar (c : Char) : Bytes :=
  let n := c.toNat
  if n < 0x80 then
    [UInt8.ofNat n]
  else if n < 0x800 then
    [UInt8.ofNat (0xC0 + n / 0x40), UInt8.ofNat (0x80 + n % 0x40)]
  else if n < 0x10000 then
    [UInt8.ofNat (0xE0 + n / 0x1000), UInt8.ofNat (0x80 + n / 0x40 % 0x40),
      UInt8.ofNat (0x80 + n % 0x40)]
  else
    [UInt8.ofNat (0xF0 + n / 0x40000), UInt8.ofNat (0x80 + n / 0x1000 % 0x40),
      UInt8.ofNat (0x80 + n / 0x40 % 0x40), UInt8.ofNat (0x80 + n % 0x40)]

/-- The bytes of a text. -/
def encode (t : Text) : Bytes := t.flatMap encodeChar

/-- Number of bytes a text takes. -/
def size (t : Text) : Nat := (encode t).length

/-! ## §2 Reading -/

/-- The six bits a following byte carries, when it is one. -/
def tail? (b : UInt8) : Option Nat :=
  if 0x80 ≤ b.toNat ∧ b.toNat < 0xC0 then some (b.toNat - 0x80) else none

/-- The character numbered `n`, when its form is the shortest one: `least` is
the first number that needs as many bytes as were read. -/
def char? (least n : Nat) : Option Char :=
  if h : least ≤ n ∧ n.isValidChar then some (Char.ofNatAux n h.2) else none

/-- The character a first byte and its following bytes stand for. -/
def join? : List UInt8 → Option Char
  | [a] => if a.toNat < 0x80 then char? 0 a.toNat else none
  | [a, b] =>
    if 0xC0 ≤ a.toNat ∧ a.toNat < 0xE0 then do
      let x ← tail? b
      char? 0x80 ((a.toNat - 0xC0) * 0x40 + x)
    else none
  | [a, b, c] =>
    if 0xE0 ≤ a.toNat ∧ a.toNat < 0xF0 then do
      let x ← tail? b
      let y ← tail? c
      char? 0x800 (((a.toNat - 0xE0) * 0x40 + x) * 0x40 + y)
    else none
  | [a, b, c, d] =>
    if 0xF0 ≤ a.toNat then do
      let x ← tail? b
      let y ← tail? c
      let z ← tail? d
      char? 0x10000 ((((a.toNat - 0xF0) * 0x40 + x) * 0x40 + y) * 0x40 + z)
    else none
  | _ => none

/-- The text that a byte sequence encodes, when it encodes one. -/
def decode : Bytes → Option Text
  | [] => some []
  | a :: rest =>
    if a.toNat < 0x80 then do
      let c ← join? [a]
      let t ← decode rest
      return c :: t
    else match rest with
      | [] => none
      | b :: rest =>
        if a.toNat < 0xE0 then do
          let c ← join? [a, b]
          let t ← decode rest
          return c :: t
        else match rest with
          | [] => none
          | c :: rest =>
            if a.toNat < 0xF0 then do
              let c ← join? [a, b, c]
              let t ← decode rest
              return c :: t
            else match rest with
              | [] => none
              | d :: rest => do
                let c ← join? [a, b, c, d]
                let t ← decode rest
                return c :: t

/-! ## §3 Equations -/

@[simp] theorem encode_nil : encode [] = [] := rfl

@[simp] theorem encode_cons (c : Char) (t : Text) : encode (c :: t) = encodeChar c ++ encode t := rfl

@[simp] theorem encode_append (s t : Text) : encode (s ++ t) = encode s ++ encode t := by
  simp [encode]

@[simp] theorem decode_nil : decode [] = some [] := rfl

end SensorScript.Utf8
