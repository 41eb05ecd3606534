/-
SensorScript.CommandLine.Path — file names as they stand on a command line.
-/
import SensorScript.Text

namespace SensorScript.Path

/-- The directory part with its final slash, and the file name after it. -/
def split (path : Text) : Text × Text :=
  ((path.reverse.dropWhile (· ≠ '/')).reverse, (path.reverse.takeWhile (· ≠ '/')).reverse)

/-- The file name up to its last dot. A dot at the very start counts for
nothing, and a name without another dot has no extension. -/
def stem? (name : Text) : Option Text :=
  let before := (name.reverse.dropWhile (· ≠ '.')).reverse.dropLast
  if before = [] then none else some before

/-- The path with an extension in place of the one it has, if any. When only a
dot would be left in front of the extension, the result is the name of the
parent directory, which takes no extension. -/
def withExtension (path extension : Text) : Text :=
  let (directory, name) := split path
  match stem? name with
  | none => path ++ ['.'] ++ extension
  | some stem =>
    if stem = ['.'] then directory ++ ['.', '.']
    else directory ++ stem ++ ['.'] ++ extension

/-- The names between the slashes of a path. -/
def components (path : Text) : List Text :=
  path.foldr
    (fun c parts =>
      if c = '/' then [] :: parts
      else match parts with
        | [] => [[c]]
        | p :: rest => (c :: p) :: rest)
    [[]]

/-- A path from the root of the file system. -/
def isAbsolute (path : Text) : Bool := path.head? = some '/'

end SensorScript.Path
