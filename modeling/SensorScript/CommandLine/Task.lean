/-
SensorScript.CommandLine.Task — what a command does, step by step.

A task prints, reads and writes files, and ends well, with a report or by a
panic. It is a value: running it in a folder gives what was printed and the
folder afterwards, and the program proper carries out the same steps on the
system.
-/
import SensorScript.CommandLine.Folder
import SensorScript.Panic

namespace SensorScript

inductive Task where
  /-- Ends well. -/
  | done
  /-- Ends with a report on the error stream. -/
  | fail (report : Text)
  /-- Ends because a call does not return. What the system reports then is no report of the task. -/
  | panic (panic : Panic)
  | print (text : Text) (next : Task)
  | read (path : Text) (next : Except FileError Bytes → Task)
  | write (path : Text) (bytes : Bytes) (next : Except FileError Unit → Task)

/-- What running a task comes to. -/
structure Outcome where
  code : Nat
  stdout : Text
  stderr : Text
  folder : Folder

namespace Task

/-- Exit codes. -/
def doneCode : Nat := 0
def failCode : Nat := 1
def panicCode : Nat := 101

/-- Runs a task in a folder. -/
def run (f : Folder) : Task → Outcome
  | .done => ⟨doneCode, [], [], f⟩
  | .fail report => ⟨failCode, [], report, f⟩
  | .panic _ => ⟨panicCode, [], [], f⟩
  | .print text next =>
    let o := next.run f
    { o with stdout := text ++ o.stdout }
  | .read path next => (next (f.read path)).run f
  | .write path bytes next =>
    match f.write path bytes with
    | .ok f' => (next (.ok ())).run f'
    | .error e => (next (.error e)).run f

/-- Prints a line. -/
def line (t : Text) (next : Task) : Task := .print (t ++ ['\n']) next

/-- Prints lines. -/
def lines (ts : List Text) (next : Task) : Task := ts.foldr line next

/-- Goes on with what a call gives, if it returns. -/
def call {α : Type} (result : Attempt α) (next : α → Task) : Task :=
  match result with
  | .error p => .panic p
  | .ok a => next a

/-- Ends with an error and what it was caused by, the outermost first. -/
def failWith (causes : List Text) : Task :=
  .fail ("Error: ".toList ++ (causes.intersperse ": ".toList).flatten ++ ['\n'])

end Task

end SensorScript
