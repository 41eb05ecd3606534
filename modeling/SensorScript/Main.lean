/-
SensorScript.Main — the assembler as a program.

Carries out the steps of a task on the files and streams of the system.
-/
import SensorScript.CommandLine.Commands

namespace SensorScript

/-- What an error of the system means for a file. -/
def FileError.ofSystem (e : IO.Error) : FileError :=
  match e with
  | .noFileOrDirectory .. => .notFound
  | .inappropriateType .. => .isDirectory
  | e => .other e.toString.toList

/-- The answer of an action on a file. -/
def attempt {α : Type} (action : IO α) : IO (Except FileError α) := do
  try
    return .ok (← action)
  catch e =>
    return .error (.ofSystem e)

/-- Carries out a task on the system and gives its exit code. -/
def Task.perform : Task → IO UInt32
  | .done => return UInt32.ofNat doneCode
  | .fail report => do
    IO.eprint report.toStr
    return UInt32.ofNat failCode
  | .panic p => do
    IO.eprintln p.message
    return UInt32.ofNat panicCode
  | .print text next => do
    IO.print text.toStr
    next.perform
  | .read path next => do
    let bytes ← attempt do
      let contents ← IO.FS.readBinFile path.toStr
      return contents.toList
    (next bytes).perform
  | .write path bytes next => do
    let written ← attempt (IO.FS.writeBinFile path.toStr (ByteArray.mk bytes.toArray))
    (next written).perform

/-- Whether an environment variable is set to anything but zero. -/
def isSet (name : String) : IO (Option Bool) := do
  return (← IO.getEnv name).map (· ≠ "0")

/-- Whether to print in colour: as the environment asks, else on terminals only. -/
def wantsColor : IO Bool := do
  if (← isSet "CLICOLOR_FORCE") = some true then return true
  if (← isSet "NO_COLOR").isSome then return false
  if (← isSet "CLICOLOR") = some false then return false
  (← IO.getStdout).isTty

end SensorScript

open SensorScript in
def main (arguments : List String) : IO UInt32 := do
  match CommandLine.task (← wantsColor) (arguments.map String.toList) with
  | .ok task => task.perform
  | .error e =>
    IO.eprintln ("error: " ++ e.message)
    return UInt32.ofNat usageCode
