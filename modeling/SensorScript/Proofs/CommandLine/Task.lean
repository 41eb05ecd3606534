/-
SensorScript.Proofs.CommandLine.Task — what a run of a task comes to.

A run ends with a code, prints a text and tries some writes (`effect`), and each
step of a task adds to that. The folder afterwards is what the writes have made of
it (`folder_run`), so nothing else has to be known of it.
-/
import SensorScript.CommandLine.Task

namespace SensorScript.Task

/-! ## §1 Writes -/

/-- The writes that a run tries, in order. -/
def writes (f : Folder) : Task → List (Text × Bytes)
  | .done => []
  | .fail _ => []
  | .panic _ => []
  | .print _ next => next.writes f
  | .read path next => (next (f.read path)).writes f
  | .write path bytes next =>
    (path, bytes) ::
      match f.write path bytes with
      | .ok g => (next (.ok ())).writes g
      | .error e => (next (.error e)).writes f

/-- How a run ends, what it prints and what it writes. -/
structure Effect where
  code : Nat
  stdout : Text
  writes : List (Text × Bytes)

def effect (f : Folder) (t : Task) : Effect := ⟨(run f t).code, (run f t).stdout, writes f t⟩

/-- The effect with a text printed before it. -/
def Effect.after (text : Text) (e : Effect) : Effect := { e with stdout := text ++ e.stdout }

/-- Lines as they are printed. -/
def printed (ts : List Text) : Text := ts.flatMap (· ++ ['\n'])

theorem Effect.after_after (first second : Text) (e : Effect) :
    (e.after second).after first = e.after (first ++ second) := by
  rw [after, after, after, List.append_assoc]

theorem effect_line (f : Folder) (text : Text) (next : Task) :
    effect f (line text next) = (effect f next).after (text ++ ['\n']) := rfl

theorem effect_lines (f : Folder) (texts : List Text) (next : Task) :
    effect f (lines texts next) = (effect f next).after (printed texts) := by
  induction texts with
  | nil => rfl
  | cons text texts ih =>
    rw [lines, List.foldr_cons, effect_line, ← lines, ih, Effect.after_after]
    rfl

theorem effect_read (f : Folder) (path : Text) (next : Except FileError Bytes → Task) :
    effect f (.read path next) = effect f (next (f.read path)) := rfl

end SensorScript.Task
