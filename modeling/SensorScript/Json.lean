/-
SensorScript.Json — a strict reader of JSON text.

The reader takes one complete value with blanks around it and nothing else:
no comments, no trailing commas, no leading zeros, no control characters
inside strings. It keeps of a value what a limits file can use: natural
numbers, and strings that are text. A string whose escapes leave half of a
surrogate pair alone is well formed but is no text.
-/
import SensorScript.Text.Numeral

namespace SensorScript

/-- A JSON value, as far as a limits file can tell values apart. -/
inductive Json where
  | null
  | bool (value : Bool)
  /-- A number; `none` for one with a sign, a fraction or an exponent. -/
  | number (natural : Option Nat)
  /-- A string; `none` for one that is no text. -/
  | string (text : Option Text)
  | array (items : List Json)
  | object (members : List (Option Text × Json))

namespace Json

/-! ## §1 Blanks, numbers, strings -/

def isBlank (c : Char) : Bool := c = ' ' || c = '\n' || c = '\t' || c = '\r'

def skipBlanks (cs : Text) : Text := cs.dropWhile isBlank

/-- At least one digit, and what follows the digits. -/
def digits? (cs : Text) : Option (Text × Text) :=
  let ds := cs.takeWhile Char.isDigit
  if ds = [] then none else some (ds, cs.dropWhile Char.isDigit)

/-- An integer part: no digit follows a leading zero. -/
def integer? (cs : Text) : Option (Text × Text) :=
  match digits? cs with
  | some ('0' :: _ :: _, _) => none
  | found => found

/-- What follows a fraction, and whether there is one. -/
def skipFraction? : Text → Option (Bool × Text)
  | '.' :: cs => (digits? cs).map fun (_, rest) => (true, rest)
  | cs => some (false, cs)

/-- What follows the sign of an exponent. -/
def skipSign : Text → Text
  | '+' :: cs => cs
  | '-' :: cs => cs
  | cs => cs

/-- What follows an exponent, and whether there is one. -/
def skipExponent? : Text → Option (Bool × Text)
  | c :: cs =>
    if c = 'e' ∨ c = 'E' then (digits? (skipSign cs)).map fun (_, rest) => (true, rest)
    else some (false, c :: cs)
  | [] => some (false, [])

def number? (cs : Text) : Option (Json × Text) := do
  let (negative, cs) := match cs with
    | '-' :: rest => (true, rest)
    | _ => (false, cs)
  let (ds, cs) ← integer? cs
  let (fraction, cs) ← skipFraction? cs
  let (exponent, cs) ← skipExponent? cs
  let natural := if negative || fraction || exponent then none else some (Numeral.value 10 ds)
  return (.number natural, cs)

/-- The code unit of a one-letter escape. -/
def escape? : Char → Option Nat
  | '"' => some 0x22
  | '\\' => some 0x5C
  | '/' => some 0x2F
  | 'b' => some 0x08
  | 'f' => some 0x0C
  | 'n' => some 0x0A
  | 'r' => some 0x0D
  | 't' => some 0x09
  | _ => none

/-- The code unit of four hexadecimal digits. -/
def hexUnit? (ds : Text) : Option Nat :=
  if ds.all Numeral.isHexDigit then some (Numeral.value 16 ds) else none

/-- Numbers of the characters and half characters of a string, read up to its
closing quote, and what follows the quote. -/
def units? : Text → Option (List Nat × Text)
  | [] => none
  | '"' :: rest => some ([], rest)
  | '\\' :: 'u' :: a :: b :: c :: d :: rest => do
    let u ← hexUnit? [a, b, c, d]
    let (us, rest) ← units? rest
    return (u :: us, rest)
  | '\\' :: e :: rest => do
    let u ← escape? e
    let (us, rest) ← units? rest
    return (u :: us, rest)
  | c :: rest =>
    if c.toNat < 0x20 then none
    else do
      let (us, rest) ← units? rest
      return (c.toNat :: us, rest)

/-- The text that units stand for, when every half character has its partner. -/
def ofUnits? : List Nat → Option Text
  | [] => some []
  | [u] => if 0xD800 ≤ u ∧ u < 0xE000 then none else some [Char.ofNat u]
  | u :: v :: rest =>
    if 0xD800 ≤ u ∧ u < 0xDC00 ∧ 0xDC00 ≤ v ∧ v < 0xE000 then
      (ofUnits? rest).map (Char.ofNat (0x10000 + (u - 0xD800) * 0x400 + (v - 0xDC00)) :: ·)
    else if 0xD800 ≤ u ∧ u < 0xE000 then none
    else (ofUnits? (v :: rest)).map (Char.ofNat u :: ·)

def string? (cs : Text) : Option (Option Text × Text) :=
  (units? cs).map fun (us, rest) => (ofUnits? us, rest)

/-! ## §2 Values -/

mutual

/-- A value and what follows it. Every call spends one unit of fuel. -/
def value? : Nat → Text → Option (Json × Text)
  | 0, _ => none
  | fuel + 1, cs =>
    match skipBlanks cs with
    | 'n' :: 'u' :: 'l' :: 'l' :: rest => some (.null, rest)
    | 't' :: 'r' :: 'u' :: 'e' :: rest => some (.bool true, rest)
    | 'f' :: 'a' :: 'l' :: 's' :: 'e' :: rest => some (.bool false, rest)
    | '"' :: rest => (string? rest).map fun (t, rest) => (.string t, rest)
    | '[' :: rest =>
      match skipBlanks rest with
      | ']' :: rest => some (.array [], rest)
      | _ => (items? fuel rest).map fun (items, rest) => (.array items, rest)
    | '{' :: rest =>
      match skipBlanks rest with
      | '}' :: rest => some (.object [], rest)
      | _ => (members? fuel rest).map fun (members, rest) => (.object members, rest)
    | rest => number? rest

/-- One or more items up to the closing bracket. -/
def items? : Nat → Text → Option (List Json × Text)
  | 0, _ => none
  | fuel + 1, cs => do
    let (item, cs) ← value? fuel cs
    match skipBlanks cs with
    | ',' :: rest => (items? fuel rest).map fun (items, rest) => (item :: items, rest)
    | ']' :: rest => some ([item], rest)
    | _ => none

/-- One or more members up to the closing brace. -/
def members? : Nat → Text → Option (List (Option Text × Json) × Text)
  | 0, _ => none
  | fuel + 1, cs =>
    match skipBlanks cs with
    | '"' :: rest => do
      let (key, rest) ← string? rest
      match skipBlanks rest with
      | ':' :: rest => do
        let (value, rest) ← value? fuel rest
        match skipBlanks rest with
        | ',' :: rest =>
          (members? fuel rest).map fun (members, rest) => ((key, value) :: members, rest)
        | '}' :: rest => some ([(key, value)], rest)
        | _ => none
      | _ => none
    | _ => none

end

/-- The value that a whole text is. A bracket spends two units of fuel and an
item at most two, so twice the length of the text is enough for any value in it. -/
def read? (cs : Text) : Option Json :=
  match value? (2 * cs.length + 2) cs with
  | some (value, rest) => if skipBlanks rest = [] then some value else none
  | none => none

end Json

end SensorScript
