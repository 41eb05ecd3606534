/-
SensorScript.Source.Line — a source buffer read as lines.

Every newline ends a line, and an unterminated rest that is not empty is a
line too. Carriage returns are dropped wherever they stand. A line that is
too long or is not UTF-8 is an error in its place, and the lines after it
are read all the same. Line k of the list is line number k + 1.
-/
import SensorScript.Text.Utf8

namespace SensorScript.Source

/-- A line that cannot be read as text. -/
inductive LineError where
  | tooLong (length max : Nat)
  | notUtf8
  deriving DecidableEq

def LineError.message : LineError → String
  | .tooLong length max => s!"line too long: {length} bytes (max {max})"
  | .notUtf8 => "line is not valid utf-8"

def newline : UInt8 := 0x0A

def carriageReturn : UInt8 := 0x0D

/-! ## §1 Segments -/

/-- Puts a byte in front of the segments of what follows it. -/
def addByte (b : UInt8) (segments : List Bytes) : List Bytes :=
  if b = newline then [] :: segments
  else match segments with
    | [] => [[b]]
    | s :: rest => (b :: s) :: rest

/-- The newline-terminated segments of a buffer, without their newlines, and
its unterminated rest unless that is empty. -/
def segments (source : Bytes) : List Bytes := source.foldr addByte []

@[simp] theorem segments_nil : segments [] = [] := rfl

theorem segments_cons (b : UInt8) (bs : Bytes) : segments (b :: bs) = addByte b (segments bs) := rfl

@[simp] theorem segments_newline (bs : Bytes) : segments (newline :: bs) = [] :: segments bs := by
  simp [segments_cons, addByte]

/-- No segment holds a newline. -/
theorem newline_notMem_segments (bs : Bytes) : ∀ s ∈ segments bs, newline ∉ s := by
  induction bs with
  | nil => simp
  | cons b bs ih =>
    rw [segments_cons]
    unfold addByte
    split
    · simpa using ih
    next hb =>
      split
      · simpa using Ne.symm hb
      next s rest hs =>
        rw [hs] at ih
        simp only [List.mem_cons, forall_eq_or_imp] at ih ⊢
        exact ⟨fun h => h.elim (fun h => hb h.symm) ih.1, ih.2⟩

/-! ## §2 Lines -/

/-- A segment without its carriage returns. -/
def stripReturns (segment : Bytes) : Bytes := segment.filter (· ≠ carriageReturn)

/-- The text of a segment of at most `max` bytes; length is judged first. -/
def readLine (max : Nat) (segment : Bytes) : Except LineError Text :=
  let bytes := stripReturns segment
  if max < bytes.length then .error (.tooLong bytes.length max)
  else match Utf8.decode bytes with
    | some text => .ok text
    | none => .error .notUtf8

/-- All lines of a buffer, in order. -/
def lines (max : Nat) (source : Bytes) : List (Except LineError Text) :=
  (segments source).map (readLine max)

@[simp] theorem lines_nil (max : Nat) : lines max [] = [] := rfl

@[simp] theorem length_lines (max : Nat) (source : Bytes) :
    (lines max source).length = (segments source).length := by
  simp [lines]

end SensorScript.Source
