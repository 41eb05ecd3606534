/-
SensorScript.Statement — what a line of a script asks for, and what can be
wrong with it.

The first word of a line decides: a mnemonic makes it an instruction, a
directive opens or closes a function, and a final colon makes it a label.
Whether the rest of the line fits, and whether the statement is allowed where
it stands, is judged when it is carried out.
-/
import SensorScript.Instruction
import SensorScript.Operand.Grammar
import SensorScript.Source.Line
import SensorScript.Source.Words
import SensorScript.Table

namespace SensorScript

/-! ## §1 Errors -/

/-- The two directives of the language. -/
inductive Directive where
  | function
  | endFunction
  deriving DecidableEq

def Directive.name : Directive → String
  | .function => ".function"
  | .endFunction => ".endfunction"

/-- Number of arguments a directive takes. -/
def Directive.arity : Directive → Nat
  | .function => 1
  | .endFunction => 0

/-- Things that only stand inside a function. -/
inductive Inner where
  | instruction
  | label
  deriving DecidableEq

def Inner.name : Inner → String
  | .instruction => "instruction"
  | .label => "label"

/-- Why a line of a script is refused. -/
inductive ParseError where
  | line (error : Source.LineError)
  | words (error : Source.WordError)
  | operand (error : OperandError)
  | tableFull (error : TableFull)
  | unknownMnemonic (word : Text)
  | unknownDirective (word : Text)
  | invalidLabel (word : Text)
  | trailingWords (word : Text)
  | directiveArguments (directive : Directive) (found : Nat)
  | arity (opcode : Opcode) (found : Nat)
  | tooManyOperands (found max : Nat)
  | operands (opcode : Opcode) (mismatch : ShapeMismatch)
  | outsideFunction (what : Inner)
  | nestedFunction (name opened : Text)
  | noOpenFunction
  | unclosedFunction (name : Text)
  deriving DecidableEq

def ParseError.message : ParseError → String
  | .line e => e.message
  | .words e => e.message
  | .operand e => e.message
  | .tableFull e => e.message
  | .unknownMnemonic word => s!"unknown instruction: '{word.toStr}'"
  | .unknownDirective word => s!"unknown directive: '{word.toStr}'"
  | .invalidLabel word => s!"invalid label: '{word.toStr}'"
  | .trailingWords word => s!"unexpected text after '{word.toStr}'"
  | .directiveArguments d found => s!"{d.name} expects {d.arity} argument(s), found {found}"
  | .arity op found => s!"{op.mnemonic} expects {op.arity} operands, found {found}"
  | .tooManyOperands found max => s!"too many operands: {found} (max {max})"
  | .operands op mismatch => s!"{op.mnemonic}: {mismatch.message}"
  | .outsideFunction what => s!"{what.name} outside of a function"
  | .nestedFunction name opened =>
    s!"function '{name.toStr}' opened inside function '{opened.toStr}'"
  | .noOpenFunction => ".endfunction without an open function"
  | .unclosedFunction name => s!"function '{name.toStr}' is never closed"

/-! ## §2 Statements -/

/-- What the words of a line ask for. -/
inductive Statement where
  | empty
  | instruction (opcode : Opcode) (arguments : List Text)
  | directive (directive : Directive) (arguments : List Text)
  /-- A label; `word` still has its colon. -/
  | label (word : Text) (arguments : List Text)
  /-- A word that starts with a dot and is no directive. -/
  | unknownDirective (word : Text)
  | unknownMnemonic (word : Text)
  deriving DecidableEq

/-- The directive that a word is. -/
def Directive.ofWord? (word : Text) : Option Directive :=
  if word = Directive.function.name.toList then some .function
  else if word = Directive.endFunction.name.toList then some .endFunction
  else none

/-- What a line asks for, told by its first word. -/
def Statement.ofWords : List Text → Statement
  | [] => .empty
  | word :: arguments =>
    match Opcode.ofMnemonic? word, Directive.ofWord? word with
    | some opcode, _ => .instruction opcode arguments
    | none, some d => .directive d arguments
    | none, none =>
      if word.getLast? = some ':' then .label word arguments
      else if word.head? = some '.' then .unknownDirective word
      else .unknownMnemonic word

@[simp] theorem Statement.ofWords_nil : Statement.ofWords [] = .empty := rfl

theorem Statement.ofWords_mnemonic (op : Opcode) (arguments : List Text) :
    Statement.ofWords (op.mnemonic.toList :: arguments) = .instruction op arguments := by
  simp [ofWords, Opcode.ofMnemonic?_mnemonic]

end SensorScript
