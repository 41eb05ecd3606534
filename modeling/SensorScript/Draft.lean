/-
SensorScript.Draft — a script as far as it has been read.

A draft holds the tables filled by the lines read so far and the function
that is open. Each statement either gives the next draft or an error, so a
refused line leaves the draft as it was. Reading a source takes its lines one
after the other, stops at the first error and keeps the draft before it.
-/
import SensorScript.Statement
import SensorScript.Symbols

namespace SensorScript

structure Draft where
  limits : Limits
  instructions : Table Instruction
  symbols : SymbolTable
  /-- Index of the open function. -/
  current : Option Nat := none

namespace Draft

/-- The draft before the first line. -/
def empty (limits : Limits) : Draft where
  limits
  instructions := { name := "instruction", capacity := limits.maxInstructions }
  symbols := SymbolTable.empty limits.maxLabels limits.maxFunctions

/-- Name of the open function. -/
def openName? (d : Draft) : Option Text := do
  let i ← d.current
  let f ← d.symbols.functions.get? i
  return f.name

/-! ## §1 Statements carried out -/

/-- Opens a function at the next instruction. -/
def openFunction (d : Draft) (word : Text) : Except ParseError Draft :=
  match d.openName? with
  | some opened => .error (.nestedFunction word opened)
  | none => do
    let name ← (Operand.readName d.limits word).mapError .operand
    let next := d.instructions.size
    let symbols ← (d.symbols.addFunction ⟨name, next, next⟩).mapError .tableFull
    return { d with symbols, current := some d.symbols.functions.size }

/-- Closes the open function before the next instruction. -/
def closeFunction (d : Draft) : Except ParseError Draft :=
  match d.current with
  | none => .error .noOpenFunction
  | some i =>
    .ok { d with symbols := d.symbols.setStop i d.instructions.size, current := none }

/-- Places a label at the next instruction; `word` ends in its colon. -/
def addLabel (d : Draft) (word : Text) : Except ParseError Draft :=
  match d.current with
  | none => .error (.outsideFunction .label)
  | some owner => do
    let name ← (Operand.readName d.limits word.dropLast).mapError fun _ => .invalidLabel word
    let symbols ← (d.symbols.addLabel ⟨name, d.instructions.size, owner⟩).mapError .tableFull
    return { d with symbols }

/-- In which context an opcode's operands stand. -/
def contextOf (op : Opcode) : Context :=
  match op.shape with
  | .call => .call
  | _ => .plain

/-- Reads operands from left to right. -/
def readOperands (limits : Limits) (context : Context) :
    List Text → Except OperandError (List Operand)
  | [] => .ok []
  | w :: ws => do
    let o ← Operand.read limits context w
    let os ← readOperands limits context ws
    return o :: os

/-- The operation that an opcode and its argument words are. -/
def readOperation (limits : Limits) (op : Opcode) (arguments : List Text) :
    Except ParseError Operation :=
  if limits.maxOperands < arguments.length then
    .error (.tooManyOperands arguments.length limits.maxOperands)
  else if arguments.length ≠ op.arity then .error (.arity op arguments.length)
  else do
    let operands ← (readOperands limits (contextOf op) arguments).mapError .operand
    (checkShape op operands).mapError (.operands op)
    return ⟨op, operands⟩

/-- Appends an instruction read from line `line` to the open function. -/
def addInstruction (d : Draft) (line : Nat) (op : Opcode) (arguments : List Text) :
    Except ParseError Draft :=
  match d.current with
  | none => .error (.outsideFunction .instruction)
  | some owner => do
    let operation ← readOperation d.limits op arguments
    let instructions ← (d.instructions.push ⟨operation, owner, line⟩).mapError .tableFull
    return { d with instructions }

/-- Carries out the statement on line `line`. -/
def apply (d : Draft) (line : Nat) : Statement → Except ParseError Draft
  | .empty => .ok d
  | .instruction op arguments => d.addInstruction line op arguments
  | .directive .function [word] => d.openFunction word
  | .directive .endFunction [] => d.closeFunction
  | .directive x arguments => .error (.directiveArguments x arguments.length)
  | .label word [] => d.addLabel word
  | .label word (_ :: _) => .error (.trailingWords word)
  | .unknownDirective word => .error (.unknownDirective word)
  | .unknownMnemonic word => .error (.unknownMnemonic word)

/-! ## §2 Lines and sources -/

/-- The draft after a line that the source reader has taken from the source. -/
def readLine (d : Draft) (line : Nat) (text : Except Source.LineError Text) :
    Except ParseError Draft := do
  let text ← text.mapError .line
  let words ← (Source.splitWords d.limits text).mapError .words
  d.apply line (.ofWords words)

/-- An error and the number of the line it was found on. -/
structure Located where
  line : Nat
  error : ParseError
  deriving DecidableEq

/-- Reads lines, the first of them numbered `line`, up to the first error. -/
def readLines (d : Draft) (line : Nat) :
    List (Except Source.LineError Text) → Draft × Except Located Unit
  | [] => (d, .ok ())
  | text :: rest =>
    match d.readLine line text with
    | .ok d' => d'.readLines (line + 1) rest
    | .error e => (d, .error ⟨line, e⟩)

/-- Reads a whole source. A function left open is an error of the last line. -/
def readSource (d : Draft) (source : Bytes) : Draft × Except Located Unit :=
  let lines := Source.lines d.limits.maxLineLen source
  match d.readLines 1 lines with
  | (d', .error e) => (d', .error e)
  | (d', .ok ()) =>
    match d'.openName? with
    | some name => (d', .error ⟨lines.length, .unclosedFunction name⟩)
    | none => (d', .ok ())

/-! ## §3 Equations -/

@[simp] theorem apply_empty (d : Draft) (line : Nat) : d.apply line .empty = .ok d := rfl

@[simp] theorem readLines_nil (d : Draft) (line : Nat) : d.readLines line [] = (d, .ok ()) := rfl

theorem readLines_cons_ok {d d' : Draft} {line : Nat} {text : Except Source.LineError Text}
    (h : d.readLine line text = .ok d') (rest : List (Except Source.LineError Text)) :
    d.readLines line (text :: rest) = d'.readLines (line + 1) rest := by
  simp [readLines, h]

theorem readLines_cons_error {d : Draft} {line : Nat} {text : Except Source.LineError Text}
    {e : ParseError} (h : d.readLine line text = .error e)
    (rest : List (Except Source.LineError Text)) :
    d.readLines line (text :: rest) = (d, .error ⟨line, e⟩) := by
  simp [readLines, h]

/-- Reading lines in two parts is reading them at once. -/
theorem readLines_append {d d' : Draft} {line : Nat}
    (first rest : List (Except Source.LineError Text))
    (h : d.readLines line first = (d', .ok ())) :
    d.readLines line (first ++ rest) = d'.readLines (line + first.length) rest := by
  induction first generalizing d line with
  | nil => cases h; rfl
  | cons text first ih =>
    cases ht : d.readLine line text with
    | error e => rw [readLines_cons_error ht] at h; cases h
    | ok d₁ =>
      rw [readLines_cons_ok ht] at h
      rw [List.cons_append, readLines_cons_ok ht, ih h, List.length_cons]
      congr 1
      omega

end Draft

end SensorScript
