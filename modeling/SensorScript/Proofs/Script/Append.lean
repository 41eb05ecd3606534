/-
SensorScript.Proofs.Script.Append — one source after another.

When the first source ends its last line, the lines of both together are those
of the first and then those of the second. So their scripts stand one after
the other as well, the second with its line numbers raised, and its tables are
moved by what stands before it (`Script.shift`).

  §1 lines and rows;
  §2 scripts on later lines;
  §3 the tables of two scripts one after the other.
-/
import SensorScript.Proofs.Relocation
import SensorScript.Proofs.Script.Lookup
import SensorScript.Proofs.Script.Reading

namespace SensorScript

/-! ## §1 Lines and rows -/

namespace Source

/-- The source is empty, or a newline ends its last line. -/
def Ended (source : Bytes) : Prop := source = [] ∨ source.getLast? = some newline

instance (source : Bytes) : Decidable (Ended source) :=
  inferInstanceAs (Decidable (source = [] ∨ source.getLast? = some newline))

theorem addByte_ne_nil (b : UInt8) (segments : List Bytes) : addByte b segments ≠ [] := by
  unfold addByte
  split
  · exact List.cons_ne_nil _ _
  · split
    · exact List.cons_ne_nil _ _
    · exact List.cons_ne_nil _ _

/-- A byte goes in front of the first segment, whatever follows that. -/
theorem addByte_append {b : UInt8} {as : List Bytes} (h : b = newline ∨ as ≠ []) (bs : List Bytes) :
    addByte b (as ++ bs) = addByte b as ++ bs := by
  unfold addByte
  split
  · rfl
  next hb =>
    cases as with
    | nil => exact absurd rfl (h.resolve_left hb)
    | cons s as => rfl

theorem segments_append {a : Bytes} (ha : Ended a) (b : Bytes) :
    segments (a ++ b) = segments a ++ segments b := by
  induction a with
  | nil => rfl
  | cons x a ih =>
    have hlast : (x :: a).getLast? = some newline := ha.resolve_left (List.cons_ne_nil x a)
    cases a with
    | nil =>
      cases hlast
      exact @addByte_append newline [] (Or.inl rfl) (segments b)
    | cons y a =>
      have hne : segments (y :: a) ≠ [] := addByte_ne_nil y (segments a)
      rw [List.cons_append, segments_cons, ih (Or.inr hlast), addByte_append (Or.inr hne)]
      rfl

theorem lines_append {a : Bytes} (ha : Ended a) (max : Nat) (b : Bytes) :
    lines max (a ++ b) = lines max a ++ lines max b := by
  rw [lines, segments_append ha, List.map_append]
  rfl

end Source

/-- The row, `n` lines further down. -/
def Row.later (n : Nat) (row : Row) : Row := { row with line := row.line + n }

theorem rowsFrom_append (line : Nat) (as bs : List (List Text)) :
    rowsFrom line (as ++ bs) = rowsFrom line as ++ rowsFrom (line + as.length) bs := by
  induction as generalizing line with
  | nil => rfl
  | cons words as ih =>
    have hline : line + 1 + as.length = line + (words :: as).length := by
      rw [List.length_cons, Nat.add_assoc, Nat.add_comm 1]
    have hrest := ih (line + 1)
    rw [hline] at hrest
    cases words with
    | nil => exact hrest
    | cons word words => exact congrArg (Row.mk line (word :: words) :: ·) hrest

theorem rowsFrom_add (line n : Nat) (lines : List (List Text)) :
    rowsFrom (line + n) lines = (rowsFrom line lines).map (Row.later n) := by
  induction lines generalizing line with
  | nil => rfl
  | cons words lines ih =>
    have hrest := ih (line + 1)
    rw [Nat.add_right_comm] at hrest
    cases words with
    | nil => exact hrest
    | cons word words => exact congrArg (Row.mk (line + n) (word :: words) :: ·) hrest

/-! ## §2 Later lines -/

def Item.later (n : Nat) : Item → Item
  | .label name => .label name
  | .instruction line operation => .instruction (line + n) operation

def Block.later (n : Nat) (b : Block) : Block := { b with items := b.items.map (Item.later n) }

/-- The script, `n` lines further down. -/
def Script.later (n : Nat) (script : Script) : Script := script.map (Block.later n)

section Written

variable {limits : Limits}

theorem Item.Written.later {item : Item} {row : Row} (h : item.Written limits row) (n : Nat) :
    (item.later n).Written limits (row.later n) := by
  cases h with
  | label allowed => exact .label allowed
  | instruction known within arity read fits => exact .instruction known within arity read fits

theorem Block.Written.later {b : Block} {rows : List Row} (h : b.Written limits rows) (n : Nat) :
    (b.later n).Written limits (rows.map (Row.later n)) := by
  cases h with
  | mk allowed inside =>
    rw [List.map_cons, List.map_append]
    refine .mk allowed ?_
    rw [List.forall₂_map_left_iff, List.forall₂_map_right_iff]
    exact inside.imp fun _ _ hitem => hitem.later n

namespace Script

variable {a b : Script} {as bs : List Row}

theorem Written.later (h : Written limits a as) (n : Nat) :
    Written limits (a.later n) (as.map (Row.later n)) := by
  obtain ⟨blocks, hb, rfl⟩ := h
  refine ⟨blocks.map (List.map (Row.later n)), ?_, List.map_flatten⟩
  rw [later, List.forall₂_map_left_iff, List.forall₂_map_right_iff]
  exact hb.imp fun _ _ hblock => hblock.later n

theorem Written.append (ha : Written limits a as) (hb : Written limits b bs) :
    Written limits (a ++ b) (as ++ bs) := by
  obtain ⟨blocks, ha, rfl⟩ := ha
  obtain ⟨blocks', hb, rfl⟩ := hb
  exact ⟨blocks ++ blocks', List.rel_append ha hb, List.flatten_append.symm⟩

/-- Sources one after the other are those of scripts one after the other. -/
theorem OfSource.append {source source' : Bytes} (ha : OfSource limits source a)
    (hb : OfSource limits source' b) (hend : Source.Ended source) :
    OfSource limits (source ++ source') (a ++ b.later (Source.segments source).length) := by
  obtain ⟨lines, hlines, ha⟩ := ha
  obtain ⟨lines', hlines', hb⟩ := hb
  have hcount : (Source.segments source).length = lines.length := by
    rw [← hlines.length_eq, Source.length_lines]
  refine ⟨lines ++ lines', ?_, ?_⟩
  · rw [Source.lines_append hend]
    exact List.rel_append hlines hlines'
  · rw [rowsFrom_append, rowsFrom_add, hcount]
    exact ha.append (hb.later _)

end Script

end Written

/-! ## §3 Tables -/

section Later

variable (s : Shift) (items : List Item) (script : Script)

theorem Block.count_later (b : Block) : (b.later s.lines).count = b.count :=
  Item.count_map (fun i => by cases i <;> rfl) b.items

theorem Item.instructions_later (owner : Nat) :
    instructions (owner + s.functions) (items.map (Item.later s.lines)) =
      (instructions owner items).map s.place := by
  induction items with
  | nil => rfl
  | cons item items ih =>
    cases item with
    | label name => exact ih
    | instruction line operation =>
      exact congrArg (Instruction.mk operation (owner + s.functions) (line + s.lines) :: ·) ih

theorem Item.labels_later (owner index : Nat) :
    labels (owner + s.functions) (index + s.instructions) (items.map (Item.later s.lines)) =
      (labels owner index items).map s.label := by
  induction items generalizing index with
  | nil => rfl
  | cons item items ih =>
    cases item with
    | label name =>
      exact congrArg (Label.mk name (index + s.instructions) (owner + s.functions) :: ·) (ih index)
    | instruction line operation =>
      have hrest := ih (index + 1)
      rw [Nat.add_right_comm] at hrest
      exact hrest

namespace Script

theorem instructions_later (owner : Nat) :
    instructions (owner + s.functions) (script.later s.lines) =
      (instructions owner script).map s.place := by
  induction script generalizing owner with
  | nil => rfl
  | cons b script ih =>
    have hrest := ih (owner + 1)
    rw [Nat.add_right_comm] at hrest
    rw [later, List.map_cons, instructions, Block.later, Item.instructions_later, instructions,
      List.map_append, ← hrest]
    rfl

theorem labels_later (owner index : Nat) :
    labels (owner + s.functions) (index + s.instructions) (script.later s.lines) =
      (labels owner index script).map s.label := by
  induction script generalizing owner index with
  | nil => rfl
  | cons b script ih =>
    have hrest := ih (owner + 1) (index + b.count)
    rw [Nat.add_right_comm, Nat.add_right_comm index] at hrest
    rw [later, List.map_cons, labels, Block.count_later, Block.later, Item.labels_later, labels,
      List.map_append, ← hrest]
    rfl

theorem functions_later (index : Nat) :
    functions (index + s.instructions) (script.later s.lines) =
      (functions index script).map s.span := by
  induction script generalizing index with
  | nil => rfl
  | cons b script ih =>
    rw [later, List.map_cons, functions, Block.count_later, Nat.add_right_comm, functions,
      List.map_cons, ← ih]
    rfl

end Script

end Later

namespace Script

variable (a b : Script)

theorem instructions_append (owner : Nat) :
    instructions owner (a ++ b) = instructions owner a ++ instructions (owner + a.length) b := by
  induction a generalizing owner with
  | nil => rfl
  | cons block a ih =>
    rw [List.cons_append, instructions, ih, instructions, List.append_assoc, List.length_cons,
      Nat.add_assoc, Nat.add_comm 1]

theorem labels_append (owner index : Nat) :
    labels owner index (a ++ b) =
      labels owner index a ++ labels (owner + a.length) (index + count a) b := by
  induction a generalizing owner index with
  | nil => rfl
  | cons block a ih =>
    rw [List.cons_append, labels, ih, labels, List.append_assoc, List.length_cons, count_cons,
      Nat.add_assoc owner, Nat.add_comm 1, Nat.add_assoc index]

theorem functions_append (index : Nat) :
    functions index (a ++ b) = functions index a ++ functions (index + count a) b := by
  induction a generalizing index with
  | nil => rfl
  | cons block a ih =>
    rw [List.cons_append, functions, ih, functions, List.cons_append, count_cons, Nat.add_assoc]

theorem owner_of_mem_itemLabels {owner index : Nat} {items : List Item} :
    ∀ l ∈ Item.labels owner index items, l.owner = owner := by
  induction items generalizing index with
  | nil => exact nofun
  | cons item items ih =>
    cases item with
    | label name => exact List.forall_mem_cons.mpr ⟨rfl, ih⟩
    | instruction line operation => exact ih

/-- Every label belongs to a block of the script. -/
theorem owner_lt_of_mem_labels {owner index : Nat} {script : Script} :
    ∀ l ∈ labels owner index script, l.owner < owner + script.length := by
  induction script generalizing owner index with
  | nil => exact nofun
  | cons block script ih =>
    intro l hl
    rw [List.length_cons]
    rcases List.mem_append.mp hl with hl | hl
    · have := owner_of_mem_itemLabels l hl
      omega
    · have := ih l hl
      omega

/-! The tables of both scripts together. -/

/-- What a script and its source leave before another one. -/
def shift (source : Bytes) (script : Script) : Shift :=
  ⟨(Source.segments source).length, script.count, script.length⟩

/-- The second script, where it stands behind the first. -/
abbrev behind (source : Bytes) (script : Script) : Script :=
  script.later (Source.segments source).length

variable (source : Bytes)

theorem instructions_behind : instructions 0 (a ++ b.behind source) =
    instructions 0 a ++ (instructions 0 b).map (a.shift source).place := by
  rw [instructions_append]
  exact congrArg _ (instructions_later (a.shift source) b 0)

theorem labels_behind : labels 0 0 (a ++ b.behind source) =
    labels 0 0 a ++ (labels 0 0 b).map (a.shift source).label := by
  rw [labels_append]
  exact congrArg _ (labels_later (a.shift source) b 0 0)

theorem functions_behind : functions 0 (a ++ b.behind source) =
    functions 0 a ++ (functions 0 b).map (a.shift source).span := by
  rw [functions_append]
  exact congrArg _ (functions_later (a.shift source) b 0)

/-- Tables that have room for what both scripts need hold them together. -/
theorem within_behind {limits : Limits} (hi : a.count + b.count ≤ limits.maxInstructions)
    (hl : (labels 0 0 a).length + (labels 0 0 b).length ≤ limits.maxLabels)
    (hf : a.length + b.length ≤ limits.maxFunctions) : Within limits (a ++ b.behind source) where
  instructions := by
    have hcount := congrArg List.length (instructions_behind a b source)
    rw [List.length_append, List.length_map, length_instructions, length_instructions,
      length_instructions] at hcount
    rw [hcount]
    exact hi
  labels := by
    rw [labels_behind, List.length_append, List.length_map]
    exact hl
  functions := by
    rw [List.length_append, behind, later, List.length_map]
    exact hf

/-- The symbol tables of two scripts give that of both together. -/
theorem joins {t u v : SymbolTable} (ht : t.labels.items = labels 0 0 a)
    (ht' : t.functions.items = functions 0 a) (hu : u.labels.items = labels 0 0 b)
    (hu' : u.functions.items = functions 0 b)
    (hv : v.labels.items = labels 0 0 (a ++ b.behind source))
    (hv' : v.functions.items = functions 0 (a ++ b.behind source)) :
    SymbolTable.Joins (a.shift source) t u v where
  labels := by rw [hv, ht, hu, labels_behind]
  functions := by rw [hv', ht', hu', functions_behind]
  behind := by rw [ht', length_functions]; rfl
  owned := by
    rw [ht, ht', length_functions]
    intro l hl
    have := owner_lt_of_mem_labels l hl
    omega

end Script

end SensorScript
