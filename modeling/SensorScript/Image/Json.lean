/-
SensorScript.Image.Json — the JSON form of an image.

An object or array that is not empty has each of its members on a line of its
own, two blanks further in than itself. Inside strings a quote, a backslash
and control characters are escaped and all else stands for itself.
-/
import SensorScript.Image

namespace SensorScript.Image

/-! ## §1 Strings -/

/-- A character as it stands inside a string. -/
def jsonChar (c : Char) : Text :=
  if c = '"' then ['\\', '"']
  else if c = '\\' then ['\\', '\\']
  else if c = '\x08' then ['\\', 'b']
  else if c = '\t' then ['\\', 't']
  else if c = '\n' then ['\\', 'n']
  else if c = '\x0c' then ['\\', 'f']
  else if c = '\r' then ['\\', 'r']
  else if c.toNat < 0x20 then ['\\', 'u'] ++ Numeral.hexPadded 4 c.toNat
  else [c]

def jsonString (t : Text) : Text := ['"'] ++ t.flatMap jsonChar ++ ['"']

/-! ## §2 Layout -/

/-- A new line with the indentation of a nesting depth. -/
def newLine (depth : Nat) : Text := '\n' :: List.replicate (2 * depth) ' '

/-- Members one to a line, between commas. -/
def separated (depth : Nat) : List Text → Text
  | [] => []
  | [x] => newLine depth ++ x
  | x :: xs => newLine depth ++ x ++ [','] ++ separated depth xs

/-- Members between an opening and a closing bracket; `depth` is that of the
bracket's own line. -/
def bracketed (depth : Nat) (opening closing : Char) (members : List Text) : Text :=
  if members = [] then [opening, closing]
  else [opening] ++ separated (depth + 1) members ++ newLine depth ++ [closing]

/-- A named member of an object. -/
def member (name : String) (value : Text) : Text := jsonString name.toList ++ [':', ' '] ++ value

/-! ## §3 Images -/

def jsonWord (w : MachineWord) : Text :=
  bracketed 2 '{' '}' [
    member "part1" (Numeral.decimal w.part1.toNat),
    member "part2" (Numeral.decimal w.part2.toNat)]

def jsonFunction (f : ImageFunction) : Text :=
  bracketed 2 '{' '}' [
    member "name" (jsonString f.name),
    member "start" (Numeral.decimal f.start.toNat),
    member "end" (Numeral.decimal f.stop.toNat)]

/-- The JSON form of an image. -/
def toJson (image : Image) : Text :=
  bracketed 0 '{' '}' [
    member "instructions" (bracketed 1 '[' ']' (image.words.map jsonWord)),
    member "functions" (bracketed 1 '[' ']' (image.functions.map jsonFunction))]

end SensorScript.Image
