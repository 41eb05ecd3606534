/-
SensorScript.Table — append-only tables with a capacity.

A table never holds more items than its capacity: that is part of its type.
Pushing onto a full table fails and names the table.
-/

namespace SensorScript

/-- A push onto a table that holds as many items as it may. -/
structure TableFull where
  table : String
  capacity : Nat
  deriving DecidableEq

def TableFull.message (e : TableFull) : String :=
  s!"{e.table} table is full (capacity: {e.capacity})"

/-- Items in the order they were pushed. -/
structure Table (α : Type) where
  /-- What the table is called in errors. -/
  name : String
  capacity : Nat
  items : List α := []
  fits : items.length ≤ capacity := by exact Nat.zero_le _

namespace Table

variable {α : Type}

def size (t : Table α) : Nat := t.items.length

def isFull (t : Table α) : Bool := t.capacity ≤ t.size

def get? (t : Table α) (i : Nat) : Option α := t.items[i]?

/-- The table with items in place of as many others. -/
def withItems (t : Table α) (items : List α) (h : items.length = t.items.length) : Table α :=
  { t with items := items, fits := h ▸ t.fits }

/-- The table with one more item at its end, whose index is the old size. -/
def push (t : Table α) (a : α) : Except TableFull (Table α) :=
  if h : t.items.length < t.capacity then
    .ok { t with items := t.items ++ [a], fits := by rw [List.length_append]; exact h }
  else .error ⟨t.name, t.capacity⟩

/-- Changes the item at an index, if there is one. -/
def modify (t : Table α) (i : Nat) (f : α → α) : Table α :=
  t.withItems (t.items.modify i f) (List.length_modify ..)

/-- Turns the order of the items around. -/
def reverse (t : Table α) : Table α := t.withItems t.items.reverse List.length_reverse

/-- Replaces the last item; an empty table stays as it is. -/
def setLast (t : Table α) (a : α) : Table α := t.modify (t.size - 1) fun _ => a

/-! ## Equations -/

@[simp] theorem items_withItems (t : Table α) (items : List α)
    (h : items.length = t.items.length) : (t.withItems items h).items = items := rfl

@[simp] theorem items_modify (t : Table α) (i : Nat) (f : α → α) :
    (t.modify i f).items = t.items.modify i f := rfl

theorem push_of_room {t : Table α} (a : α) (h : t.items.length < t.capacity) :
    ∃ t', t.push a = .ok t' ∧ t'.items = t.items ++ [a] ∧ t'.name = t.name ∧
      t'.capacity = t.capacity := by
  simp [push, h]

theorem items_of_push {t t' : Table α} {a : α} (h : t.push a = .ok t') :
    t'.items = t.items ++ [a] := by
  unfold push at h
  split at h
  · cases h; rfl
  · cases h

theorem push_eq_error_iff {t : Table α} {a : α} {e : TableFull} :
    t.push a = .error e ↔ t.isFull = true ∧ e = ⟨t.name, t.capacity⟩ := by
  unfold push isFull size
  split
  · simp; omega
  · simp [eq_comm]; omega

end Table

end SensorScript
