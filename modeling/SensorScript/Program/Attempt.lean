/-
SensorScript.Program.Attempt — assembling a source, which may panic.

A line is split into words in a list that is reserved for it (`Source.split`),
and every call that reads lines does not return when one of these lists cannot
be reserved. Here are those calls. They do on each line what `Draft` and
`Program` do, which have the lists, and what is done after the last line needs
none of them.
-/
import SensorScript.Program

namespace SensorScript.Attempt

open Draft (Located)

/-! ## §1 Lines and sources -/

/-- The draft after a line that the source reader has taken from the source. -/
def readLine (d : Draft) (line : Nat) :
    Except Source.LineError Text → Attempt (Except ParseError Draft)
  | .error e => return .error (.line e)
  | .ok text => do
    match ← Source.split d.limits text with
    | .error e => return .error (.words e)
    | .ok words => return d.apply line (.ofWords words)

/-- Reads lines, the first of them numbered `line`, up to the first error. -/
def readLines (d : Draft) (line : Nat) :
    List (Except Source.LineError Text) → Attempt (Draft × Except Located Unit)
  | [] => return (d, .ok ())
  | text :: rest => do
    match ← readLine d line text with
    | .ok d' => readLines d' (line + 1) rest
    | .error e => return (d, .error ⟨line, e⟩)

/-- Reads a whole source. A function left open is an error of the last line. -/
def readSource (d : Draft) (source : Bytes) : Attempt (Draft × Except Located Unit) := do
  let lines := Source.lines d.limits.maxLineLen source
  match ← readLines d 1 lines with
  | (d', .error e) => return (d', .error e)
  | (d', .ok ()) =>
    match d'.openName? with
    | some name => return (d', .error ⟨lines.length, .unclosedFunction name⟩)
    | none => return (d', .ok ())

/-! ## §2 Programs -/

/-- Reads a whole source into an empty program. -/
def parse (p : Program) (source : Bytes) : Attempt (Program.Outcome Unit) :=
  if p.stage = .empty then do
    let p := { p with stage := .parsing }
    match ← readSource p.draft source with
    | (draft, .ok ()) => return ({ p with draft, stage := .parsed }, .ok ())
    | (draft, .error e) => return { p with draft }.fail (.parse e.line e.error)
  else return p.fail (.invalidStage .parse p.stage)

/-- Parses and links a source. -/
def check (source : Bytes) (limits : Limits) : Attempt (Except AssembleError Program) :=
  match Program.new limits with
  | .error e => return .error e
  | .ok p => do
    match ← parse p source with
    | (_, .error e) => return .error e
    | (p, .ok ()) =>
      match p.link with
      | (_, .error e) => return .error e
      | (p, .ok ()) => return .ok p

/-- The image of a source, and the program it was made by. -/
def assembleProgram (source : Bytes) (limits : Limits) :
    Attempt (Except AssembleError (Program × Image)) := do
  match ← check source limits with
  | .error e => return .error e
  | .ok p =>
    match p.encode with
    | (_, .error e) => return .error e
    | (p, .ok image) => return .ok (p, image)

/-- The image of a source. -/
def assemble (source : Bytes) (limits : Limits) : Attempt (Except AssembleError Image) := do
  return (← assembleProgram source limits).map (·.2)

end SensorScript.Attempt
