/-
SensorScript.CommandLine.Arguments — the grammar of the command line.

  [-v]... build [options] SOURCE
  [-v]... check [options] SOURCE
  [-v]... disasm [options] IMAGE

Options may stand before or after the path. An option that takes a value has
it behind an equals sign, right behind its short name, or as the next word,
which must not look like an option. Short names of options without a value
may be run together. After a word of two dashes every word is a path. No
option but `--verbose` may be given twice, and names are never abbreviated.
-/
import SensorScript.Text

namespace SensorScript

/-- Forms in which an image is written. -/
inductive Format where
  | bin
  | hex
  | json
  deriving DecidableEq

/-- Name of a format, which is also the extension of its files. -/
def Format.name : Format → String
  | .bin => "bin"
  | .hex => "hex"
  | .json => "json"

/-- The format of a given name. -/
def Format.ofName? (name : Text) : Option Format :=
  [Format.bin, .hex, .json].find? fun f => f.name.toList = name

/-- What is asked of a build. -/
structure BuildOptions where
  source : Text
  /-- Where the image goes; by default beside the source. -/
  output : Option Text := none
  format : Format := .bin
  config : Option Text := none
  listing : Bool := false
  deriving DecidableEq

inductive Command where
  | build (options : BuildOptions)
  | check (source : Text) (config : Option Text)
  | disasm (image : Text)
  deriving DecidableEq

/-- All options there are. -/
inductive Flag where
  | verbose
  | output
  | format
  | config
  | listing
  deriving DecidableEq

namespace Flag

/-- Name after two dashes. -/
def long : Flag → String
  | .verbose => "verbose"
  | .output => "output"
  | .format => "format"
  | .config => "config"
  | .listing => "listing"

/-- Name after one dash. -/
def short? : Flag → Option Char
  | .verbose => some 'v'
  | .output => some 'o'
  | .format => some 'f'
  | .config => some 'c'
  | .listing => none

def takesValue : Flag → Bool
  | .output | .format | .config => true
  | .verbose | .listing => false

/-- Whether the option may be given more than once. -/
def repeats : Flag → Bool
  | .verbose => true
  | _ => false

end Flag

/-- Command lines that are refused. -/
inductive UsageError where
  | unknownCommand (word : Text)
  | unknownOption (word : Text)
  | unexpectedArgument (word : Text)
  | missingValue (flag : Flag)
  | unexpectedValue (flag : Flag)
  | repeated (flag : Flag)
  | invalidFormat (word : Text)
  | emptyPath
  | missingPath
  deriving DecidableEq

def UsageError.message : UsageError → String
  | .unknownCommand word => s!"unrecognized subcommand '{word.toStr}'"
  | .unknownOption word => s!"unexpected argument '{word.toStr}' found"
  | .unexpectedArgument word => s!"unexpected argument '{word.toStr}' found"
  | .missingValue flag => s!"a value is required for '--{flag.long}' but none was supplied"
  | .unexpectedValue flag => s!"unexpected value for '--{flag.long}' found"
  | .repeated flag => s!"the argument '--{flag.long}' cannot be used multiple times"
  | .invalidFormat word => s!"invalid value '{word.toStr}' for '--format'"
  | .emptyPath => "a path is required but an empty one was supplied"
  | .missingPath => "a path is required but none was supplied"

namespace Arguments

/-! ## §1 Words -/

/-- An option with its value, or a path. -/
inductive Item where
  | option (flag : Flag) (value : Option Text)
  | path (word : Text)
  deriving DecidableEq

/-- A word that starts with a dash, and is not a dash alone. -/
def isOption : Text → Bool
  | '-' :: _ :: _ => true
  | _ => false

/-- A long name, and a value behind an equals sign. -/
def splitValue (name : Text) : Text × Option Text :=
  match name.dropWhile (· ≠ '=') with
  | [] => (name, none)
  | _ :: value => (name.takeWhile (· ≠ '='), some value)

/-- What a word gives: complete items, or an option still without its value. -/
structure Reading where
  items : List Item
  pending : Option Flag := none

/-- A long option; `name` follows its dashes. -/
def readLong (flags : List Flag) (name : Text) : Except UsageError Reading :=
  let (long, value) := splitValue name
  match flags.find? fun f => f.long.toList = long with
  | none => .error (.unknownOption ('-' :: '-' :: name))
  | some f =>
    match f.takesValue, value with
    | true, some v => .ok { items := [.option f (some v)] }
    | true, none => .ok { items := [], pending := some f }
    | false, some _ => .error (.unexpectedValue f)
    | false, none => .ok { items := [.option f none] }

/-- A value right behind a short name, with or without an equals sign. -/
def attached : Text → Text
  | '=' :: value => value
  | value => value

/-- Short options run together; the first that takes a value takes the rest. -/
def readShort (flags : List Flag) : Text → Except UsageError Reading
  | [] => .ok { items := [] }
  | c :: rest =>
    match flags.find? fun f => f.short? = some c with
    | none => .error (.unknownOption ['-', c])
    | some f =>
      if f.takesValue then
        if rest = [] then .ok { items := [], pending := some f }
        else .ok { items := [.option f (some (attached rest))] }
      else do
        let r ← readShort flags rest
        return { r with items := .option f none :: r.items }

/-- A word that looks like an option. -/
def readOption (flags : List Flag) (word : Text) : Except UsageError Reading :=
  match word with
  | '-' :: '-' :: name => readLong flags name
  | _ => readShort flags word.tail

/-- The items that words are; `pending` is an option waiting for its value. -/
def readItems (flags : List Flag) : Option Flag → List Text → Except UsageError (List Item)
  | none, [] => .ok []
  | some f, [] => .error (.missingValue f)
  | some f, word :: rest =>
    if isOption word then .error (.missingValue f)
    else do
      let items ← readItems flags none rest
      return .option f (some word) :: items
  | none, word :: rest =>
    if word = ['-', '-'] then .ok (rest.map .path)
    else if isOption word then do
      let r ← readOption flags word
      let items ← readItems flags r.pending rest
      return r.items ++ items
    else do
      let items ← readItems flags none rest
      return .path word :: items

/-! ## §2 Commands -/

/-- Refuses items that give an option twice which does not repeat. -/
def checkRepeats : List Item → Except UsageError Unit
  | [] => .ok ()
  | .path _ :: rest => checkRepeats rest
  | .option f _ :: rest =>
    if !f.repeats && rest.any fun
      | .option g _ => g = f
      | .path _ => false
    then .error (.repeated f)
    else checkRepeats rest

/-- The value that items give an option. -/
def value? (flag : Flag) (items : List Item) : Option Text :=
  items.findSome? fun
    | .option f v => if f = flag then v else none
    | .path _ => none

/-- A value that is a path. -/
def nonempty (path : Text) : Except UsageError Text :=
  if path = [] then .error .emptyPath else .ok path

/-- The path that items give an option. -/
def pathValue? (flag : Flag) (items : List Item) : Except UsageError (Option Text) :=
  match value? flag items with
  | none => .ok none
  | some v => (nonempty v).map some

/-- The one path among items. -/
def onePath (items : List Item) : Except UsageError Text :=
  match items.filterMap fun
    | .path p => some p
    | .option .. => none
  with
  | [] => .error .missingPath
  | [p] => nonempty p
  | _ :: p :: _ => .error (.unexpectedArgument p)

def readFormat (items : List Item) : Except UsageError Format :=
  match value? .format items with
  | none => .ok .bin
  | some v =>
    match Format.ofName? v with
    | some f => .ok f
    | none => .error (.invalidFormat v)

/-- Items of a command that takes the given options. -/
def readArguments (flags : List Flag) (words : List Text) : Except UsageError (List Item) := do
  let items ← readItems flags none words
  checkRepeats items
  return items

def readBuild (words : List Text) : Except UsageError Command := do
  let items ← readArguments [.verbose, .output, .format, .config, .listing] words
  let source ← onePath items
  let output ← pathValue? .output items
  let config ← pathValue? .config items
  let format ← readFormat items
  let listing := items.contains (.option .listing none)
  return .build { source, output, format, config, listing }

def readCheck (words : List Text) : Except UsageError Command := do
  let items ← readArguments [.verbose, .config] words
  let source ← onePath items
  let config ← pathValue? .config items
  return .check source config

def readDisasm (words : List Text) : Except UsageError Command := do
  let items ← readArguments [.verbose] words
  let image ← onePath items
  return .disasm image

/-- The command that a command line asks for; none when it only has options. -/
def read : List Text → Except UsageError (Option Command)
  | [] => .ok none
  | word :: rest =>
    if word = ['-', '-'] then
      match rest with
      | [] => .ok none
      | w :: _ => .error (.unexpectedArgument w)
    else if isOption word then do
      let _ ← readOption [.verbose] word
      read rest
    else if word = "build".toList then (readBuild rest).map some
    else if word = "check".toList then (readCheck rest).map some
    else if word = "disasm".toList then (readDisasm rest).map some
    else .error (.unknownCommand word)

end Arguments

end SensorScript
