/-
SensorScript.Symbols — labels and functions of one script.

A label belongs to the function it stands in, and stands for the index of the
instruction after it. A function covers the instructions from `start` up to
`stop`. Names may repeat; a look-up gives the first one.
-/
import SensorScript.Table
import SensorScript.Text

namespace SensorScript

structure Label where
  name : Text
  /-- Index of the instruction that follows the label. -/
  index : Nat
  /-- Index of the function that the label stands in. -/
  owner : Nat
  deriving DecidableEq

/-- A function and the instructions it covers. -/
structure FunctionSpan where
  name : Text
  start : Nat
  stop : Nat
  deriving DecidableEq

namespace FunctionSpan

/-- Number of instructions covered. -/
def length (f : FunctionSpan) : Nat := f.stop - f.start

def isEmpty (f : FunctionSpan) : Bool := f.start = f.stop

end FunctionSpan

/-- The label and function tables. -/
structure SymbolTable where
  labels : Table Label
  functions : Table FunctionSpan

namespace SymbolTable

/-- Empty tables. -/
def empty (maxLabels maxFunctions : Nat) : SymbolTable where
  labels := { name := "label", capacity := maxLabels }
  functions := { name := "function", capacity := maxFunctions }

def addLabel (s : SymbolTable) (label : Label) : Except TableFull SymbolTable :=
  (s.labels.push label).map fun labels => { s with labels }

def addFunction (s : SymbolTable) (span : FunctionSpan) : Except TableFull SymbolTable :=
  (s.functions.push span).map fun functions => { s with functions }

/-- Sets where the function at an index stops, if there is one. -/
def setStop (s : SymbolTable) (i stop : Nat) : SymbolTable :=
  { s with functions := s.functions.modify i fun f => { f with stop } }

/-- The first label of that name in a function. -/
def findLabel? (s : SymbolTable) (owner : Nat) (name : Text) : Option Label :=
  s.labels.items.find? fun l => l.owner = owner ∧ l.name = name

/-- Index of the first function of that name. -/
def findFunction? (s : SymbolTable) (name : Text) : Option Nat :=
  s.functions.items.findIdx? fun f => f.name = name

end SymbolTable

end SensorScript
