/-
SensorScript.Link — references resolved to indices.

A label is looked up in the function that refers to it, a function among all
functions. Functions are linked in the order of their table and the
instructions of each from first to last. Linking stops at the first reference
that names nothing: what it resolved before stays resolved, and the rest of
the list is untouched.
-/
import SensorScript.Draft

namespace SensorScript

/-- A reference that names nothing. -/
inductive LinkError where
  | undefinedLabel (name : Text)
  | undefinedFunction (name : Text)
  deriving DecidableEq

def LinkError.message : LinkError → String
  | .undefinedLabel name => s!"can't find label: {name.toStr}"
  | .undefinedFunction name => s!"can't find func: {name.toStr}"

namespace Link

/-- What linking makes of `α`, and how many references it resolved, or the
error it stopped at. -/
abbrev Linked (α : Type) := α × Except LinkError Nat

/-! ## §1 Single references -/

/-- The operand with its index, and how many references that resolves. -/
def resolve (symbols : SymbolTable) (owner : Nat) : Operand → Except LinkError (Operand × Nat)
  | .label s =>
    match symbols.findLabel? owner s.name with
    | some label => .ok (.label { s with index := some (UInt32.ofNat label.index) }, 1)
    | none => .error (.undefinedLabel s.name)
  | .function s =>
    match symbols.findFunction? s.name with
    | some i => .ok (.function { s with index := some (UInt32.ofNat i) }, 1)
    | none => .error (.undefinedFunction s.name)
  | o => .ok (o, 0)

/-- One operand; one that names nothing is left as it is. -/
def operand (symbols : SymbolTable) (owner : Nat) (o : Operand) : Linked Operand :=
  match resolve symbols owner o with
  | .ok (o', n) => (o', .ok n)
  | .error e => (o, .error e)

/-! ## §2 Lists -/

/-- Links items in order up to the first error and counts what was resolved. -/
def each {α : Type} (f : α → Linked α) : List α → Linked (List α)
  | [] => ([], .ok 0)
  | a :: as =>
    match f a with
    | (a', .error e) => (a' :: as, .error e)
    | (a', .ok n) =>
      let (as', rest) := each f as
      (a' :: as', rest.map (n + ·))

@[simp] theorem length_each {α : Type} (f : α → Linked α) (as : List α) :
    (each f as).1.length = as.length := by
  induction as with
  | nil => rfl
  | cons a as ih =>
    simp only [each]
    split
    · simp
    · simp [ih]

/-- All operands of one instruction. -/
def instruction (symbols : SymbolTable) (owner : Nat) (i : Instruction) : Linked Instruction :=
  let (operands, result) := each (operand symbols owner) i.operation.operands
  ({ i with operation := { i.operation with operands } }, result)

/-- The instructions from `start` up to `stop`; those around them stay. -/
def span (symbols : SymbolTable) (owner start stop : Nat) (is : List Instruction) :
    Linked (List Instruction) :=
  let (inside, result) := each (instruction symbols owner) ((is.drop start).take (stop - start))
  (is.take start ++ inside ++ (is.drop start).drop (stop - start), result)

theorem length_span (symbols : SymbolTable) (owner start stop : Nat) (is : List Instruction) :
    (span symbols owner start stop is).1.length = is.length := by
  simp [span]
  omega

/-- The functions of a list, the first of which has the index `owner`. -/
def functions (symbols : SymbolTable) :
    Nat → List FunctionSpan → List Instruction → Linked (List Instruction)
  | _, [], is => (is, .ok 0)
  | owner, f :: fs, is =>
    match span symbols owner f.start f.stop is with
    | (is', .error e) => (is', .error e)
    | (is', .ok n) =>
      let (is'', rest) := functions symbols (owner + 1) fs is'
      (is'', rest.map (n + ·))

theorem length_functions (symbols : SymbolTable) (owner : Nat) (fs : List FunctionSpan)
    (is : List Instruction) : (functions symbols owner fs is).1.length = is.length := by
  induction fs generalizing owner is with
  | nil => rfl
  | cons f fs ih =>
    have h := length_span symbols owner f.start f.stop is
    simp only [functions]
    split
    next heq => rw [heq] at h; exact h
    next heq => rw [heq] at h; simp [ih, h]

/-- All instructions that the functions of a symbol table cover. -/
def all (symbols : SymbolTable) (is : List Instruction) : Linked (List Instruction) :=
  functions symbols 0 symbols.functions.items is

@[simp] theorem length_all (symbols : SymbolTable) (is : List Instruction) :
    (all symbols is).1.length = is.length := length_functions ..

end Link

/-- The draft with its references resolved, as far as they are. -/
def Draft.link (d : Draft) : Link.Linked Draft :=
  let linked := Link.all d.symbols d.instructions.items
  ({ d with instructions := d.instructions.withItems linked.1 (Link.length_all ..) }, linked.2)

end SensorScript
