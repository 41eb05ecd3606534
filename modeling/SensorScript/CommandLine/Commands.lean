/-
SensorScript.CommandLine.Commands — the commands of the assembler.

`build` compiles a script and writes its image, `check` parses and links one
and prints its symbols, and `disasm` lists the instructions of an image file.
A command that fails prints what went wrong, the most general cause first.
Nothing is written before everything that can fail or panic on the way is done.
-/
import SensorScript.CommandLine.Arguments
import SensorScript.CommandLine.Report
import SensorScript.CommandLine.Task
import SensorScript.Image.Json
import SensorScript.Limits.File
import SensorScript.Program.Attempt

namespace SensorScript

namespace AssembleError

/-- The error and the errors that caused it. -/
def causes (e : AssembleError) : List Text :=
  match e with
  | .parse _ inner => [e.message.toList, inner.message.toList]
  | .limits inner => [e.message.toList, inner.message.toList]
  | _ => [e.message.toList]

end AssembleError

namespace Command

/-! ## §1 Files that commands read -/

/-- Ends because of a file. -/
def failFile (what path : Text) (e : FileError) : Task :=
  .failWith [what ++ ": ".toList ++ path, e.message.toList]

/-- A file read as text. -/
def textOf (bytes : Except FileError Bytes) : Except FileError Text := do
  match Utf8.decode (← bytes) with
  | some text => .ok text
  | none => .error .notUtf8

/-- Goes on with the limits in a file, or with the default limits. What is
wrong with the text of a limits file is not told. -/
def withLimits (config : Option Text) (next : Limits → Task) : Task :=
  match config with
  | none => next {}
  | some path => .read path fun contents =>
    match textOf contents with
    | .error e => failFile "Failed to read config file".toList path e
    | .ok text =>
      match Limits.read? text with
      | none => .fail ("Error: Invalid config file: ".toList ++ path)
      | some limits =>
        match limits.check with
        | .error e => .failWith ["Invalid assembler limits".toList, e.message.toList]
        | .ok () => next limits

/-- Goes on with the contents of a script file. -/
def withSource (path : Text) (next : Bytes → Task) : Task :=
  .read path fun contents =>
    match contents with
    | .error e => failFile "Failed to read source file".toList path e
    | .ok source => next source

/-! ## §2 Building -/

/-- An image in a format. -/
def render (image : Image) : Format → Bytes
  | .bin => image.toBytes
  | .hex => Utf8.encode ((image.toBytes.flatMap fun b => Numeral.hexPadded 2 b.toNat) ++ ['\n'])
  | .json => Utf8.encode image.toJson

/-- The line that tells what was compiled. -/
def summary (color : Bool) (image : Image) : Text :=
  Style.paint color .success ['✓'] ++ "  Compiled ".toList ++
    Numeral.decimal image.words.length ++ " instructions in ".toList ++
    Numeral.decimal image.functions.length ++ " functions".toList

/-- Writes an image and tells how long its file is. -/
def writeImage (color : Bool) (path : Text) (contents : Bytes) : Task :=
  .write path contents fun written =>
    match written with
    | .error e => failFile "Failed to write output file".toList path e
    | .ok () =>
      .line [] <| .line ("  Wrote ".toList ++ Numeral.decimal contents.length ++ " bytes to ".toList ++
        Style.paint color .output path) .done

/-- Where the image of a build goes. -/
def outputPath (o : BuildOptions) : Text :=
  o.output.getD (Path.withExtension o.source o.format.name.toList)

/-- Ends a build with what its source is assembled as. -/
def finishBuild (color : Bool) (o : BuildOptions) :
    Except AssembleError (Program × Image) → Task
  | .error e => .failWith (("Failed to compile ".toList ++ o.source) :: e.causes)
  | .ok (program, image) =>
    .line (summary color image) <|
    .lines (if o.listing then [] :: (ListingLine.list program image).map (·.text color) else []) <|
    writeImage color (outputPath o) (render image o.format)

def buildTask (color : Bool) (o : BuildOptions) : Task :=
  .line (Style.paint color .heading "Building script...".toList) <| .line [] <|
  withLimits o.config fun limits =>
  withSource o.source fun source =>
  .line ("  Compiling: ".toList ++ Style.paint color .muted o.source) <|
  .call (Attempt.assembleProgram source limits) (finishBuild color o)

/-! ## §3 Checking -/

def checkTask (color : Bool) (source : Text) (config : Option Text) : Task :=
  withLimits config fun limits =>
  withSource source fun bytes =>
  .call (Attempt.check bytes limits) fun checked =>
  match checked with
  | .error e => .failWith ((source ++ " failed to check".toList) :: e.causes)
  | .ok program =>
    .lines ([
      Style.paint color .success ['✓'] ++ [' ', ' '] ++ Style.paint color .muted source ++
        " is valid".toList,
      [],
      "  Instructions: ".toList ++ Numeral.decimal program.draft.instructions.size,
      "  Functions:".toList] ++ symbolLines color program.draft.symbols) .done

/-! ## §4 Disassembling -/

def disasmTask (color : Bool) (path : Text) : Task :=
  .read path fun contents =>
    match contents with
    | .error e => failFile "Failed to read image file".toList path e
    | .ok bytes =>
      match Image.ofBytes bytes with
      | .error e => .failWith ["Failed to read image".toList, e.message.toList]
      | .ok image =>
        match disassemble color image with
        | .error (index, e) =>
          .failWith ["Failed to decode instruction ".toList ++ Numeral.decimal index,
            e.message.toList]
        | .ok lines => .lines lines .done

/-- What a command does. -/
def task (color : Bool) : Command → Task
  | .build options => buildTask color options
  | .check source config => checkTask color source config
  | .disasm image => disasmTask color image

end Command

/-! ## §5 Command lines -/

/-- Printed when no command is given. -/
def banner : List Text := [
  "sensorasm - Assembler for sensor scripts".toList,
  "Run 'sensorasm --help' for usage information.".toList]

/-- Exit code of a command line that is refused. -/
def usageCode : Nat := 2

/-- What a command line asks for. -/
def CommandLine.task (color : Bool) (words : List Text) : Except UsageError Task :=
  (Arguments.read words).map fun command =>
    match command with
    | none => .lines banner .done
    | some c => c.task color

/-- Carries out a command line in a folder. -/
def CommandLine.run (color : Bool) (words : List Text) (f : Folder) : Outcome :=
  match CommandLine.task color words with
  | .ok task => task.run f
  | .error e => ⟨usageCode, [], ("error: " ++ e.message ++ "\n").toList, f⟩

end SensorScript
