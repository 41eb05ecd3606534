/-
SensorScript.Draft.InPlace — a draft that is changed in place.

`Draft.apply` gives a new draft or an error. A reader that keeps a single
draft writes to its tables one after the other instead, and what it has
written before an error stays written. Here are the statements with their
guards and writes in the order such a reader makes them.
-/
import SensorScript.Draft

namespace SensorScript.Draft.InPlace

/-- Changes the one draft there is, or stops with an error and leaves the draft
as far as it was changed. -/
abbrev Edit (α : Type) := EStateM ParseError Draft α

/-- Goes on with a value, or stops with an error. -/
def ofExcept {α : Type} : Except ParseError α → Edit α
  | .ok a => pure a
  | .error e => throw e

/-! ## §1 Writes -/

/-- Appends a function and gives its index. -/
def pushFunction (span : FunctionSpan) : Edit Nat := do
  let d ← get
  let symbols ← ofExcept ((d.symbols.addFunction span).mapError .tableFull)
  set { d with symbols }
  return d.symbols.functions.size

def pushLabel (label : Label) : Edit Unit := do
  let d ← get
  let symbols ← ofExcept ((d.symbols.addLabel label).mapError .tableFull)
  set { d with symbols }

/-- Appends an instruction to the open function. -/
def pushInstruction (line : Nat) (operation : Operation) : Edit Unit := do
  let d ← get
  match d.current with
  | none => throw (.outsideFunction .instruction)
  | some owner =>
    let instructions ←
      ofExcept ((d.instructions.push ⟨operation, owner, line⟩).mapError .tableFull)
    set { d with instructions }

def setStop (i stop : Nat) : Edit Unit :=
  modify fun d => { d with symbols := d.symbols.setStop i stop }

def setCurrent (current : Option Nat) : Edit Unit := modify fun d => { d with current }

/-! ## §2 Statements -/

def openFunction (word : Text) : Edit Unit := do
  let d ← get
  match d.openName? with
  | some opened => throw (.nestedFunction word opened)
  | none =>
    let name ← ofExcept ((Operand.readName d.limits word).mapError .operand)
    let index ← pushFunction ⟨name, d.instructions.size, d.instructions.size⟩
    setCurrent (some index)

def closeFunction : Edit Unit := do
  let d ← get
  match d.current with
  | none => throw .noOpenFunction
  | some i =>
    setStop i d.instructions.size
    setCurrent none

def addLabel (word : Text) : Edit Unit := do
  let d ← get
  match d.current with
  | none => throw (.outsideFunction .label)
  | some owner =>
    let name ← ofExcept
      ((Operand.readName d.limits word.dropLast).mapError fun _ => .invalidLabel word)
    pushLabel ⟨name, d.instructions.size, owner⟩

/-- Reads an instruction, and appends it once it is read. -/
def addInstruction (line : Nat) (op : Opcode) (arguments : List Text) : Edit Unit := do
  let d ← get
  match d.current with
  | none => throw (.outsideFunction .instruction)
  | some _ =>
    let operation ← ofExcept (readOperation d.limits op arguments)
    pushInstruction line operation

/-- Carries out what the words of line `line` ask for. -/
def analyze (line : Nat) (words : List Text) : Edit Unit :=
  match Statement.ofWords words with
  | .empty => pure ()
  | .instruction op arguments => addInstruction line op arguments
  | .directive .function [word] => openFunction word
  | .directive .endFunction [] => closeFunction
  | .directive x arguments => throw (.directiveArguments x arguments.length)
  | .label word [] => addLabel word
  | .label word (_ :: _) => throw (.trailingWords word)
  | .unknownDirective word => throw (.unknownDirective word)
  | .unknownMnemonic word => throw (.unknownMnemonic word)

/-! ## §3 Lines and sources -/

def readLine (line : Nat) (text : Except Source.LineError Text) : Edit Unit := do
  let text ← ofExcept (text.mapError .line)
  let words ← ofExcept ((Source.splitWords (← get).limits text).mapError .words)
  analyze line words

/-- Reads lines, the first of them numbered `line`, up to the first error. -/
def readLines : Nat → List (Except Source.LineError Text) → EStateM Located Draft Unit
  | _, [] => pure ()
  | line, text :: rest => do
    (readLine line text).adaptExcept (Located.mk line)
    readLines (line + 1) rest

/-- Reads a whole source. A function left open is an error of the last line. -/
def readSource (source : Bytes) : EStateM Located Draft Unit := do
  let lines := Source.lines (← get).limits.maxLineLen source
  readLines 1 lines
  match (← get).openName? with
  | some name => throw ⟨lines.length, .unclosedFunction name⟩
  | none => pure ()

end SensorScript.Draft.InPlace
