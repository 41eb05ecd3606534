/-
SensorScript.Text.Slice — texts looked at and cut by byte positions.

A position counts bytes of the encoding form. A text may be cut where a
character starts or where the text ends, and nowhere else: `sliceFrom?` has no
answer inside a character and behind the end.
-/
import SensorScript.Text.Utf8

namespace SensorScript.Utf8

/-- The byte at a position. -/
def byte? (t : Text) (position : Nat) : Option UInt8 := (encode t)[position]?

/-- What follows so many bytes, if these end with a character. -/
def sliceFrom? : Text → Nat → Option Text
  | t, 0 => some t
  | [], _ + 1 => none
  | c :: t, position + 1 =>
    if (encodeChar c).length ≤ position + 1 then
      sliceFrom? t (position + 1 - (encodeChar c).length)
    else none

/-- The only byte of an ASCII character. -/
def asciiByte (c : Char) : UInt8 := UInt8.ofNat c.toNat

/-- A slice is no longer than what it was cut from. -/
theorem length_le_of_sliceFrom? {t s : Text} {position : Nat} (h : sliceFrom? t position = some s) :
    s.length ≤ t.length := by
  induction t generalizing position with
  | nil =>
    cases position with
    | zero => cases h; exact Nat.le_refl _
    | succ position => cases h
  | cons c t ih =>
    cases position with
    | zero => cases h; exact Nat.le_refl _
    | succ position =>
      simp only [sliceFrom?] at h
      split at h
      · exact Nat.le_succ_of_le (ih h)
      · cases h

end SensorScript.Utf8
