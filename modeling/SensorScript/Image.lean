/-
SensorScript.Image — the firmware image of a compiled script.

An image holds the machine words of a script and its function table. Its
byte form is, every number being 32 bits with the lowest byte first:

  the bytes SCRP, number of words, number of functions
  both parts of every word
  of every function: length of its name in bytes, name, start, stop
-/
import SensorScript.MachineWord
import SensorScript.Symbols
import SensorScript.Text.Numeral
import SensorScript.Text.Utf8

namespace SensorScript

/-- A function as the firmware finds it. -/
structure ImageFunction where
  name : Text
  start : UInt32
  stop : UInt32
  deriving DecidableEq

structure Image where
  words : List MachineWord
  functions : List ImageFunction
  deriving DecidableEq

/-- Why bytes are no image. Positions are those of the field that fails. -/
inductive ImageError where
  | badMagic (found : UInt32)
  | truncated (position : Nat)
  | nameNotUtf8
  | trailingBytes (count : Nat)
  deriving DecidableEq

def ImageError.message : ImageError → String
  | .badMagic found => s!"bad image magic: 0x{(Numeral.hexPadded 8 found.toNat).toStr}"
  | .truncated position => s!"image truncated at byte {position}"
  | .nameNotUtf8 => "function name is not valid utf-8"
  | .trailingBytes count => s!"{count} trailing bytes after image"

namespace Image

/-- The table entry of a function. -/
def entryOf (f : FunctionSpan) : ImageFunction :=
  ⟨f.name, UInt32.ofNat f.start, UInt32.ofNat f.stop⟩

/-- The image of words and the functions they belong to. -/
def ofWords (words : List MachineWord) (functions : List FunctionSpan) : Image :=
  ⟨words, functions.map entryOf⟩

/-- Index of the first function of that name. -/
def function? (image : Image) (name : Text) : Option Nat :=
  image.functions.findIdx? fun f => f.name = name

/-! ## §1 Writing -/

/-- A number of 32 bits as four bytes, the lowest first. -/
def word32 (n : UInt32) : Bytes :=
  [UInt8.ofNat n.toNat, UInt8.ofNat (n.toNat / 0x100), UInt8.ofNat (n.toNat / 0x10000),
    UInt8.ofNat (n.toNat / 0x1000000)]

/-- The number that the bytes SCRP are. -/
def magic : UInt32 := 0x50524353

def wordBytes (w : MachineWord) : Bytes := word32 w.part1 ++ word32 w.part2

def functionBytes (f : ImageFunction) : Bytes :=
  let name := Utf8.encode f.name
  word32 (UInt32.ofNat name.length) ++ name ++ word32 f.start ++ word32 f.stop

/-- The byte form of an image. -/
def toBytes (image : Image) : Bytes :=
  word32 magic ++ word32 (UInt32.ofNat image.words.length) ++
    word32 (UInt32.ofNat image.functions.length) ++
    image.words.flatMap wordBytes ++ image.functions.flatMap functionBytes

/-! ## §2 Reading -/

/-- A place in a byte buffer and the bytes from there on. -/
structure Cursor where
  position : Nat
  rest : Bytes

/-- A reader gives a value and the place after it. -/
abbrev Reader (α : Type) := Cursor → Except ImageError (α × Cursor)

/-- The next `n` bytes. -/
def take (n : Nat) : Reader Bytes := fun c =>
  let bytes := c.rest.take n
  if bytes.length = n then .ok (bytes, ⟨c.position + n, c.rest.drop n⟩)
  else .error (.truncated c.position)

/-- The number that four bytes are. -/
def number32 : Bytes → UInt32
  | [a, b, c, d] =>
    UInt32.ofNat (a.toNat + b.toNat * 0x100 + c.toNat * 0x10000 + d.toNat * 0x1000000)
  | _ => 0

def readNumber : Reader UInt32 := fun c => do
  let (bytes, c) ← take 4 c
  return (number32 bytes, c)

def readWord : Reader MachineWord := fun c => do
  let (part1, c) ← readNumber c
  let (part2, c) ← readNumber c
  return (⟨part1, part2⟩, c)

/-- A table entry; the name is judged before what follows it. -/
def readFunction : Reader ImageFunction := fun c => do
  let (length, c) ← readNumber c
  let (bytes, c) ← take length.toNat c
  match Utf8.decode bytes with
  | none => .error .nameNotUtf8
  | some name =>
    let (start, c) ← readNumber c
    let (stop, c) ← readNumber c
    return (⟨name, start, stop⟩, c)

/-- The same thing a number of times. -/
def readMany {α : Type} (read : Reader α) : Nat → Reader (List α)
  | 0 => fun c => .ok ([], c)
  | n + 1 => fun c => do
    let (a, c) ← read c
    let (as, c) ← readMany read n c
    return (a :: as, c)

/-- The image that a byte buffer is. -/
def ofBytes (bytes : Bytes) : Except ImageError Image := do
  let (found, c) ← readNumber ⟨0, bytes⟩
  if found ≠ magic then .error (.badMagic found)
  else
    let (wordCount, c) ← readNumber c
    let (functionCount, c) ← readNumber c
    let (words, c) ← readMany readWord wordCount.toNat c
    let (functions, c) ← readMany readFunction functionCount.toNat c
    if c.rest = [] then return ⟨words, functions⟩
    else .error (.trailingBytes c.rest.length)

end Image

end SensorScript
