/-
SensorScript.CommandLine.Report — what the commands print about a script.

An annotated listing goes through the instructions in order. In front of each
stand the functions that start at it and the labels of its own function that
point to it.
-/
import SensorScript.CommandLine.Style
import SensorScript.MachineWord.Decode
import SensorScript.Program

namespace SensorScript

/-! ## §1 Annotated listings -/

/-- One line of an annotated listing. -/
inductive ListingLine where
  | function (span : FunctionSpan)
  | label (label : Label)
  | instruction (index : Nat) (instruction : Instruction) (word : MachineWord)
  deriving DecidableEq

namespace ListingLine

/-- The lines that belong to the instruction at an index. -/
def around (symbols : SymbolTable) (index : Nat) (i : Instruction) (w : MachineWord) :
    List ListingLine :=
  (symbols.functions.items.filter fun f => f.start = index).map .function ++
    (symbols.labels.items.filter fun l => l.index = index ∧ l.owner = i.owner).map .label ++
    [.instruction index i w]

/-- Lines for instructions and their words, the first of which has the given index. -/
def listFrom (symbols : SymbolTable) (index : Nat) :
    List (Instruction × MachineWord) → List ListingLine
  | [] => []
  | (i, w) :: rest => around symbols index i w ++ listFrom symbols (index + 1) rest

/-- The listing of a compiled script. -/
def list (p : Program) (image : Image) : List ListingLine :=
  listFrom p.draft.symbols 0 (p.draft.instructions.items.zip image.words)

def text (color : Bool) : ListingLine → Text
  | .function f => Style.paint color .function f.name ++ [':']
  | .label l => [' ', ' '] ++ Style.paint color .label l.name ++ [':']
  | .instruction index i w =>
    [' ', ' '] ++ Column.right 4 (Numeral.decimal index) ++ [' ', ' '] ++ w.hex ++ [' ', ' '] ++
      Column.left 28 i.operation.text ++ [' '] ++
      Style.paint color .muted ("; line ".toList ++ Numeral.decimal i.line)

end ListingLine

/-! ## §2 Symbols -/

/-- A function and the instructions it covers. -/
def functionLine (color : Bool) (index : Nat) (f : FunctionSpan) : Text :=
  "    ".toList ++ Column.right 3 (Numeral.decimal index) ++ [' ', ' '] ++
    Style.paintIn color .function 20 f.name ++ [' '] ++
    Numeral.decimal f.start ++ ['.', '.'] ++ Numeral.decimal f.stop

def labelLine (color : Bool) (l : Label) : Text :=
  "           ".toList ++ Style.paintIn color .label 18 l.name ++ [' '] ++ Numeral.decimal l.index

/-- Every function, followed by its labels. -/
def symbolLines (color : Bool) (symbols : SymbolTable) : List Text :=
  (symbols.functions.items.mapIdx fun index f =>
    functionLine color index f ::
      (symbols.labels.items.filter fun l => l.owner = index).map (labelLine color)).flatten

/-! ## §3 Disassembly -/

/-- A decoded word with its index. -/
def wordLine (color : Bool) (index : Nat) (w : MachineWord) (x : Operation) : Text :=
  [' ', ' '] ++ Column.right 4 (Numeral.decimal index) ++ [' ', ' '] ++
    Style.paint color .muted (Numeral.hexPadded 8 w.part1.toNat) ++ [' '] ++
    Style.paint color .muted (Numeral.hexPadded 8 w.part2.toNat) ++ [' ', ' '] ++ x.text

/-- Lines for words, the first of which has the given index, with the names of
the functions that start at them; or the index of the first word that stands
for no operation. -/
def disassembleFrom (color : Bool) (functions : List ImageFunction) (index : Nat) :
    List MachineWord → Except (Nat × DecodeError) (List Text)
  | [] => .ok []
  | w :: ws => do
    let starting := functions.filter fun f => f.start.toNat = index
    let x ← w.decode.mapError fun e => (index, e)
    let lines ← disassembleFrom color functions (index + 1) ws
    return starting.map (fun f => Style.paint color .function f.name ++ [':']) ++
      wordLine color index w x :: lines

/-- The disassembly of an image. -/
def disassemble (color : Bool) (image : Image) : Except (Nat × DecodeError) (List Text) :=
  disassembleFrom color image.functions 0 image.words

end SensorScript
