/-
SensorScript.CommandLine.Folder — files in a folder and what paths into it
lead to.

A path leads from the folder itself through subfolders to a file. `.` stays
where it is and `..` goes up. Nothing is known of what lies outside the
folder: directories there hold no file.
-/
import SensorScript.CommandLine.Path
import SensorScript.Text.Utf8

namespace SensorScript

/-- Why a file cannot be read or written. -/
inductive FileError where
  | notFound
  | notDirectory
  | isDirectory
  | nameTooLong
  /-- The file is no text. -/
  | notUtf8
  /-- Any other reason, in the words of the system. -/
  | other (reason : Text)
  deriving DecidableEq

def FileError.message : FileError → String
  | .notFound => "No such file or directory (os error 2)"
  | .notDirectory => "Not a directory (os error 20)"
  | .isDirectory => "Is a directory (os error 21)"
  | .nameTooLong => "File name too long (os error 36)"
  | .notUtf8 => "stream did not contain valid UTF-8"
  | .other reason => reason.toStr

/-- Files by the names that lead to them from the folder. -/
structure Folder where
  files : List (List Text × Bytes)

/-- What a path leads to. -/
inductive Place where
  | directory
  | file (names : List Text)
  /-- No file, where one could be put. -/
  | free (names : List Text)
  /-- A name followed by a slash that is no directory's. -/
  | slashed (isFile : Bool)
  deriving DecidableEq

namespace Folder

/-- Contents of the file that names lead to. -/
def find? (f : Folder) (names : List Text) : Option Bytes :=
  (f.files.find? fun file => file.1 = names).map (·.2)

/-- Names that lead to the folder itself or on to a file in it. -/
def isDirectory (f : Folder) (names : List Text) : Bool :=
  names = [] || f.files.any fun file => names.isPrefixOf file.1 && names.length < file.1.length

/-- The names that a step up leads to; `none` is outside of the folder. -/
def up : Option (List Text) → Option (List Text)
  | some (n :: names) => some ((n :: names).dropLast)
  | _ => none

/-- Longest name, in bytes. -/
def maxName : Nat := 255

/-- Longest path, in bytes. -/
def maxPath : Nat := 4095

/-- Follows the rest of a path from a directory. -/
def walk (f : Folder) : Option (List Text) → List Text → Except FileError Place
  | _, [] => .ok .directory
  | here, name :: rest =>
    if name = [] ∨ name = ['.'] then f.walk here rest
    else if name = ['.', '.'] then f.walk (up here) rest
    else if maxName < Utf8.size name then .error .nameTooLong
    else match here with
      | none => .error .notFound
      | some names =>
        let names := names ++ [name]
        if f.isDirectory names then f.walk (some names) rest
        else
          let isFile := (f.find? names).isSome
          if rest = [] then .ok (if isFile then .file names else .free names)
          else if rest.all (· = []) then .ok (.slashed isFile)
          else .error (if isFile then .notDirectory else .notFound)

/-- What a path leads to from the folder. -/
def locate (f : Folder) (path : Text) : Except FileError Place :=
  if path = [] then .error .notFound
  else if maxPath < Utf8.size path then .error .nameTooLong
  else f.walk (if Path.isAbsolute path then none else some []) (Path.components path)

/-- Contents of the file at a path. -/
def read (f : Folder) (path : Text) : Except FileError Bytes := do
  match ← f.locate path with
  | .directory => .error .isDirectory
  | .free _ => .error .notFound
  | .slashed isFile => .error (if isFile then .notDirectory else .notFound)
  | .file names =>
    match f.find? names with
    | some bytes => .ok bytes
    | none => .error .notFound

/-- The folder with contents for the file that names lead to. -/
def put (f : Folder) (names : List Text) (bytes : Bytes) : Folder :=
  ⟨(names, bytes) :: f.files.filter fun file => file.1 ≠ names⟩

/-- The folder after contents were written to a path. -/
def write (f : Folder) (path : Text) (bytes : Bytes) : Except FileError Folder := do
  match ← f.locate path with
  | .directory => .error .isDirectory
  | .slashed _ => .error .isDirectory
  | .free names => .ok (f.put names bytes)
  | .file names => .ok (f.put names bytes)

/-! ## Equations -/

end Folder

end SensorScript
