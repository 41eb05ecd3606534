/-
SensorScript.Source.Reader — a source read one line after the other.

`lines` cuts a whole source at once. A reader keeps the source and its place in
it instead. It looks for the next newline from that place on, and goes on
behind it; the rest of a source without one is its last line. Every line that
is given is counted, also one that cannot be read.
-/
import SensorScript.Source.Line

namespace SensorScript.Source

structure Reader where
  source : Bytes
  maxLineLen : Nat
  position : Nat := 0
  /-- Number of the line given last, zero before the first. -/
  line : Nat := 0

namespace Reader

/-- Number of bytes that are not read yet. -/
def remaining (r : Reader) : Nat := r.source.length - r.position

/-- The text of a segment. One without carriage returns is read where it
stands, any other from a copy without them. -/
def decode (r : Reader) (segment : Bytes) : Except LineError Text :=
  let length := segment.countP (· ≠ carriageReturn)
  if r.maxLineLen < length then .error (.tooLong length r.maxLineLen)
  else
    let text? :=
      if segment.contains carriageReturn then
        Utf8.decode (segment.filter (· ≠ carriageReturn))
      else Utf8.decode segment
    match text? with
    | some text => .ok text
    | none => .error .notUtf8

/-- The segment at the front of what is not read yet, and how many bytes it
takes together with its newline. -/
def front (rest : Bytes) : Bytes × Nat :=
  match rest.findIdx? (· = newline) with
  | some stop => (rest.take stop, stop + 1)
  | none => (rest, rest.length)

/-- The next line, and the reader behind it. -/
def next? (r : Reader) : Option (Except LineError Text × Reader) :=
  if r.source.length ≤ r.position then none
  else
    let next := front (r.source.drop r.position)
    some (r.decode next.1, { r with position := r.position + next.2, line := r.line + 1 })

/-- A newline takes a byte, and so does a rest that is not empty. -/
theorem front_pos {rest : Bytes} (h : rest ≠ []) : 0 < (front rest).2 := by
  unfold front
  split
  · exact Nat.succ_pos _
  · exact List.length_pos_iff.mpr h

theorem remaining_of_next? {r r' : Reader} {text : Except LineError Text}
    (h : r.next? = some (text, r')) : r'.remaining < r.remaining := by
  unfold next? at h
  split at h
  · cases h
  next hleft =>
    have hused := front_pos (mt List.drop_eq_nil_iff.mp hleft)
    obtain ⟨_, rfl⟩ := Prod.mk.inj (Option.some.inj h)
    simp only [remaining]
    omega

/-- All lines that are still to come, each with its number. -/
def items (r : Reader) : List (Nat × Except LineError Text) :=
  match _h : r.next? with
  | none => []
  | some (text, r') => (r'.line, text) :: items r'
termination_by r.remaining
decreasing_by exact remaining_of_next? ‹_›

theorem items_of_none {r : Reader} (h : r.next? = none) : r.items = [] := by
  rw [items]
  split
  · rfl
  next hsome => cases h.symm.trans hsome

theorem items_of_some {r r' : Reader} {text : Except LineError Text}
    (h : r.next? = some (text, r')) : r.items = (r'.line, text) :: r'.items := by
  rw [items]
  split
  next hnone => cases h.symm.trans hnone
  next hsome => cases h.symm.trans hsome; rfl

end Reader

end SensorScript.Source
