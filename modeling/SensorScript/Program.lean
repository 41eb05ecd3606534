/-
SensorScript.Program — a script on its way to an image.

A program is parsed, linked and encoded, each once and in this order. A call
in any other stage is an error, and any error makes the program fail for
good. A failed program keeps the tables it had and the error of its latest
call.
-/
import SensorScript.Image
import SensorScript.Link
import SensorScript.MachineWord.Encode

namespace SensorScript

/-- Stages in the order they are reached; `failed` is never left. -/
inductive Stage where
  | empty
  | parsing
  | parsed
  | linked
  | encoded
  | failed
  deriving DecidableEq

def Stage.name : Stage → String
  | .empty => "Empty"
  | .parsing => "Parsing"
  | .parsed => "Parsed"
  | .linked => "Linked"
  | .encoded => "Encoded"
  | .failed => "Failed"

/-- The calls that take a program from stage to stage. -/
inductive Call where
  | parse
  | link
  | encode
  deriving DecidableEq

def Call.name : Call → String
  | .parse => "parse"
  | .link => "link"
  | .encode => "encode"

/-- The stage that a call is made in. -/
def Call.stage : Call → Stage
  | .parse => .empty
  | .link => .parsed
  | .encode => .linked

/-- Why a script does not become an image. -/
inductive AssembleError where
  | parse (line : Nat) (error : ParseError)
  | link (error : LinkError)
  | encode (error : EncodeError)
  | limits (error : LimitsError)
  | invalidStage (call : Call) (stage : Stage)
  deriving DecidableEq

namespace AssembleError

def message : AssembleError → String
  | .parse line error => s!"line {line}: {error.message}"
  | .link error => error.message
  | .encode error => error.message
  | .limits error => s!"invalid config: {error.message}"
  | .invalidStage call stage => s!"cannot {call.name} a program in stage {stage.name}"

/-- The source line that a script is refused for. -/
def line? : AssembleError → Option Nat
  | .parse line _ => some line
  | _ => none

end AssembleError

structure Program where
  draft : Draft
  stage : Stage := .empty
  /-- The error of the latest call, if it failed. -/
  lastError : Option AssembleError := none

namespace Program

/-- What a call makes of the program, and what it answers. -/
abbrev Outcome (α : Type) := Program × Except AssembleError α

/-- An empty program with limits that fit together. -/
def new (limits : Limits) : Except AssembleError Program := do
  limits.check.mapError .limits
  return { draft := .empty limits }

/-- Source line of the error that failed the program. -/
def errorLine? (p : Program) : Option Nat := p.lastError.bind (·.line?)

/-- The program after an error. -/
def fail {α : Type} (p : Program) (error : AssembleError) : Outcome α :=
  ({ p with stage := .failed, lastError := some error }, .error error)

/-- Makes a call in its stage, and fails the program in any other. -/
def inStage {α : Type} (p : Program) (call : Call) (run : Program → Outcome α) : Outcome α :=
  if p.stage = call.stage then run p else p.fail (.invalidStage call p.stage)

/-! ## §1 Calls -/

/-- Reads a whole source into an empty program. -/
def parse (p : Program) (source : Bytes) : Outcome Unit :=
  p.inStage .parse fun p =>
    let p := { p with stage := .parsing }
    match p.draft.readSource source with
    | (draft, .ok ()) => ({ p with draft, stage := .parsed }, .ok ())
    | (draft, .error e) => { p with draft }.fail (.parse e.line e.error)

/-- Resolves all references of a parsed program. -/
def link (p : Program) : Outcome Unit :=
  p.inStage .link fun p =>
    match p.draft.link with
    | (draft, .ok _) => ({ p with draft, stage := .linked }, .ok ())
    | (draft, .error e) => { p with draft }.fail (.link e)

/-- The image of a linked program. -/
def encode (p : Program) : Outcome Image :=
  p.inStage .encode fun p =>
    match encodeAll p.draft.instructions.items with
    | .ok words =>
      ({ p with stage := .encoded }, .ok (.ofWords words p.draft.symbols.functions.items))
    | .error e => p.fail (.encode e)

/-! ## §2 Whole scripts -/

/-- Parses and links a source. -/
def check (source : Bytes) (limits : Limits) : Except AssembleError Program := do
  let p ← new limits
  match p.parse source with
  | (_, .error e) => .error e
  | (p, .ok ()) =>
    match p.link with
    | (_, .error e) => .error e
    | (p, .ok ()) => .ok p

end Program

/-- The image of a source, and the program it was made by. -/
def assembleProgram (source : Bytes) (limits : Limits) : Except AssembleError (Program × Image) := do
  let p ← Program.check source limits
  match p.encode with
  | (_, .error e) => .error e
  | (p, .ok image) => .ok (p, image)

/-- The image of a source. -/
def assemble (source : Bytes) (limits : Limits) : Except AssembleError Image :=
  (assembleProgram source limits).map (·.2)

end SensorScript
