/-
SensorScript.Proofs.Script.Grammar — the script language.

A script is a list of blocks, one for every function, and a block a list of
labels and instructions. The grammar says which rows of words write it, with
no draft and no table in it; the tables of a script are read off its blocks.

  §1 rows of words, and scripts;
  §2 the rows that write a script;
  §3 the tables of a script;
  §4 the grammar row by row: what a first row can be, between blocks and
     inside one.
-/
import Mathlib.Data.List.Forall2
import SensorScript.Draft

namespace SensorScript

/-! ## §1 Rows and scripts -/

/-- The words of a line that holds any, and the number of the line. -/
structure Row where
  line : Nat
  words : List Text

/-- The rows of lines, the first of which is numbered `line`. -/
def rowsFrom : Nat → List (List Text) → List Row
  | _, [] => []
  | line, [] :: rest => rowsFrom (line + 1) rest
  | line, (word :: words) :: rest => ⟨line, word :: words⟩ :: rowsFrom (line + 1) rest

/-- What stands inside a function. -/
inductive Item where
  | label (name : Text)
  | instruction (line : Nat) (operation : Operation)

/-- A function with what stands inside it. -/
structure Block where
  name : Text
  items : List Item

/-- Functions in the order of the source. -/
abbrev Script := List Block

/-! ## §2 The language -/

/-- The row that opens a function. -/
def Row.opening (line : Nat) (name : Text) : Row :=
  ⟨line, [Directive.function.name.toList, name]⟩

/-- The row that closes a function. -/
def Row.closing (line : Nat) : Row := ⟨line, [Directive.endFunction.name.toList]⟩

/-- The rows of a label and of an instruction. -/
inductive Item.Written (limits : Limits) : Item → Row → Prop
  | label {line name} (allowed : Operand.readName limits name = .ok name) :
      Written limits (.label name) ⟨line, [name ++ [':']]⟩
  | instruction {line mnemonic opcode arguments operands}
      (known : Opcode.ofMnemonic? mnemonic = some opcode)
      (within : arguments.length ≤ limits.maxOperands)
      (arity : arguments.length = opcode.arity)
      (read : List.Forall₂
        (fun word operand => Operand.read limits (Draft.contextOf opcode) word = .ok operand)
        arguments operands)
      (fits : checkShape opcode operands = .ok ()) :
      Written limits (.instruction line ⟨opcode, operands⟩) ⟨line, mnemonic :: arguments⟩

/-- The rows of a block: one that opens the function, one for every item, and
one that closes the function. -/
inductive Block.Written (limits : Limits) : Block → List Row → Prop
  | mk {first last name items rows} (allowed : Operand.readName limits name = .ok name)
      (inside : List.Forall₂ (Item.Written limits) items rows) :
      Written limits ⟨name, items⟩ (.opening first name :: (rows ++ [.closing last]))

/-- The rows of a script: those of its blocks, one block after the other. -/
def Script.Written (limits : Limits) (script : Script) (rows : List Row) : Prop :=
  ∃ blocks : List (List Row),
    List.Forall₂ (Block.Written limits) script blocks ∧ rows = blocks.flatten

/-! ## §3 Tables -/

namespace Item

def isInstruction : Item → Bool
  | .label _ => false
  | .instruction .. => true

/-- How many of the items are instructions. -/
def count (items : List Item) : Nat := items.countP isInstruction

theorem count_map {f : Item → Item} (h : ∀ i, (f i).isInstruction = i.isInstruction)
    (items : List Item) : count (items.map f) = count items := by
  have hsame : isInstruction ∘ f = isInstruction := funext h
  rw [count, List.countP_map, hsame, count]

/-- The instruction that an item of the function `owner` is. -/
def instruction? (owner : Nat) : Item → Option Instruction
  | .label _ => none
  | .instruction line operation => some ⟨operation, owner, line⟩

/-- The instructions among the items of the function `owner`. -/
def instructions (owner : Nat) (items : List Item) : List Instruction :=
  items.filterMap (instruction? owner)

/-- The labels among the items of the function `owner`, of which the first
instruction has the given index. -/
def labels (owner : Nat) : Nat → List Item → List Label
  | _, [] => []
  | index, .label name :: items => ⟨name, index, owner⟩ :: labels owner index items
  | index, .instruction _ _ :: items => labels owner (index + 1) items

@[simp] theorem count_nil : count [] = 0 := rfl

@[simp] theorem count_label (name : Text) (items : List Item) :
    count (.label name :: items) = count items := List.countP_cons_of_neg nofun

@[simp] theorem count_instruction (line : Nat) (operation : Operation) (items : List Item) :
    count (.instruction line operation :: items) = count items + 1 := List.countP_cons_of_pos rfl

@[simp] theorem length_instructions (owner : Nat) (items : List Item) :
    (instructions owner items).length = count items := by
  induction items with
  | nil => rfl
  | cons item items ih =>
    cases item with
    | label name => rw [count_label]; exact ih
    | instruction line operation => rw [count_instruction, ← ih]; rfl

/-! The tables of a first item and of the others. -/

theorem count_cons (item : Item) (items : List Item) :
    count (item :: items) = count [item] + count items := by
  cases item with
  | label name => rw [count_label, count_label, count_nil, Nat.zero_add]
  | instruction line operation => rw [count_instruction, count_instruction, Nat.add_comm]; rfl

theorem instructions_cons (owner : Nat) (item : Item) (items : List Item) :
    instructions owner (item :: items) = instructions owner [item] ++ instructions owner items := by
  cases item with
  | label name => rfl
  | instruction line operation => rfl

theorem labels_cons (owner index : Nat) (item : Item) (items : List Item) :
    labels owner index (item :: items) =
      labels owner index [item] ++ labels owner (index + count [item]) items := by
  cases item with
  | label name => rfl
  | instruction line operation => rfl

end Item

/-- How many instructions stand in the block. -/
def Block.count (b : Block) : Nat := Item.count b.items

namespace Script

/-- How many instructions stand in the script. -/
def count : Script → Nat
  | [] => 0
  | b :: script => b.count + count script

/-- The instructions of blocks, the first of which has the index `owner`. -/
def instructions : Nat → Script → List Instruction
  | _, [] => []
  | owner, b :: script => Item.instructions owner b.items ++ instructions (owner + 1) script

/-- The labels of blocks, the first of which has the index `owner` and starts
at the instruction `index`. -/
def labels : Nat → Nat → Script → List Label
  | _, _, [] => []
  | owner, index, b :: script =>
    Item.labels owner index b.items ++ labels (owner + 1) (index + b.count) script

/-- The functions of blocks, the first of which starts at the instruction `index`. -/
def functions : Nat → Script → List FunctionSpan
  | _, [] => []
  | index, b :: script => ⟨b.name, index, index + b.count⟩ :: functions (index + b.count) script

@[simp] theorem count_nil : count [] = 0 := rfl

@[simp] theorem count_cons (b : Block) (script : Script) :
    count (b :: script) = b.count + count script := rfl

@[simp] theorem length_instructions (owner : Nat) (script : Script) :
    (instructions owner script).length = count script := by
  induction script generalizing owner with
  | nil => rfl
  | cons b script ih =>
    rw [instructions, List.length_append, Item.length_instructions, ih, count_cons, Block.count]

@[simp] theorem length_functions (index : Nat) (script : Script) :
    (functions index script).length = script.length := by
  induction script generalizing index with
  | nil => rfl
  | cons b script ih => rw [functions, List.length_cons, ih, List.length_cons]

/-! ## §4 Row by row -/

variable {limits : Limits}

/-- The rows that end a block whose items are still to come, and the script after it. -/
def Remains (limits : Limits) (items : List Item) (script : Script) (rows : List Row) : Prop :=
  ∃ inside last rest, List.Forall₂ (Item.Written limits) items inside ∧
    Written limits script rest ∧ rows = inside ++ Row.closing last :: rest

theorem written_nil_iff {script : Script} : Written limits script [] ↔ script = [] := by
  constructor
  · rintro ⟨blocks, hb, hrows⟩
    cases hb with
    | nil => rfl
    | cons hblock _ => cases hblock; cases hrows
  · rintro rfl
    exact ⟨[], .nil, rfl⟩

theorem written_cons_iff {script : Script} {row : Row} {rows : List Row} :
    Written limits script (row :: rows) ↔
      ∃ name items rest, script = ⟨name, items⟩ :: rest ∧ row = Row.opening row.line name ∧
        Operand.readName limits name = .ok name ∧ Remains limits items rest rows := by
  constructor
  · rintro ⟨blocks, hb, hrows⟩
    cases hb with
    | nil => cases hrows
    | cons hblock hrest =>
      cases hblock with
      | mk hname hitems =>
        cases hrows
        exact ⟨_, _, _, rfl, rfl, hname, _, _, _, hitems, ⟨_, hrest, rfl⟩,
          List.append_assoc ..⟩
  · rintro ⟨name, items, rest, rfl, hrow, hname, inside, last, _, hitems, ⟨blocks, hb, rfl⟩, rfl⟩
    refine ⟨(Row.opening row.line name :: (inside ++ [Row.closing last])) :: blocks,
      .cons ⟨hname, hitems⟩ hb, ?_⟩
    rw [hrow, List.flatten_cons, List.cons_append, List.append_assoc]
    rfl

theorem not_remains_nil {items : List Item} {script : Script} :
    ¬ Remains limits items script [] := by
  rintro ⟨inside, last, rest, _, _, h⟩
  exact List.append_ne_nil_of_right_ne_nil inside (List.cons_ne_nil _ _) h.symm

theorem remains_cons_iff {items : List Item} {script : Script} {row : Row} {rows : List Row} :
    Remains limits items script (row :: rows) ↔
      (items = [] ∧ row = Row.closing row.line ∧ Written limits script rows) ∨
      ∃ item rest, items = item :: rest ∧ item.Written limits row ∧
        Remains limits rest script rows := by
  constructor
  · rintro ⟨inside, last, rest, hitems, hrest, h⟩
    cases hitems with
    | nil => cases h; exact Or.inl ⟨rfl, rfl, hrest⟩
    | cons hitem hitems =>
      cases h
      exact Or.inr ⟨_, _, rfl, hitem, _, _, _, hitems, hrest, rfl⟩
  · rintro (⟨rfl, hrow, hrest⟩ | ⟨item, rest, rfl, hitem, inside, last, _, hitems, hrest, rfl⟩)
    · exact ⟨[], row.line, rows, .nil, hrest, by rw [← hrow]; rfl⟩
    · exact ⟨row :: inside, last, _, .cons hitem hitems, hrest, rfl⟩

end Script

end SensorScript
