/-
SensorScript.Source.Words — a line split into words.

Spaces, tabs and commas separate words, and a semicolon ends the line. A
word is a longest run of other characters. The limits on the words of a line
are applied from left to right; of a word that is too long and one too many,
its length is the error.

The words are put in a list. Room for all that the limits allow is reserved for
it before the line is looked at, so limits that allow too many words make `split`
panic on every line. `splitWords` is what comes of a line once the list is there.
-/
import SensorScript.Limits
import SensorScript.Panic

namespace SensorScript.Source

/-- A line whose words exceed a limit. -/
inductive WordError where
  | tooLong (word : Text) (max : Nat)
  | tooMany (max : Nat)
  deriving DecidableEq

def WordError.message : WordError → String
  | .tooLong word max => s!"word too long: '{word.toStr}' (max {max} characters)"
  | .tooMany max => s!"too many words on line (max {max})"

def isSeparator (c : Char) : Bool := c = ' ' || c = '\t' || c = ','

def isTerminator (c : Char) : Bool := c = ';'

/-! ## §1 Runs -/

/-- The runs of a text: the one that starts at its first character, empty when
that is a separator, and those after it. -/
structure Runs where
  first : Text
  others : List Text

/-- All runs that are not empty. -/
def Runs.toList (r : Runs) : List Text :=
  if r.first = [] then r.others else r.first :: r.others

/-- Puts a character in front of the text. -/
def Runs.add (c : Char) (r : Runs) : Runs :=
  if isSeparator c then ⟨[], r.toList⟩ else ⟨c :: r.first, r.others⟩

/-- Longest runs of characters that do not separate words, in order. -/
def runs (text : Text) : List Text := (text.foldr Runs.add ⟨[], []⟩).toList

/-- The part of a line that holds its words. -/
def body (line : Text) : Text := line.takeWhile (fun c => !isTerminator c)

/-- All words of a line, whatever their lengths and number. -/
def words (line : Text) : List Text := runs (body line)

/-! ## §2 Limits -/

/-- The words as they are, when each has at most `maxLen` characters and there
is room for them; `room` is how many more words the line may hold of `max`. -/
def enforce (maxLen max : Nat) : List Text → Nat → Except WordError (List Text)
  | [], _ => .ok []
  | w :: ws, room =>
    if maxLen < w.length then .error (.tooLong w maxLen)
    else if room = 0 then .error (.tooMany max)
    else (enforce maxLen max ws (room - 1)).map (w :: ·)

/-- The words of a line within the limits. -/
def splitWords (limits : Limits) (line : Text) : Except WordError (List Text) :=
  enforce limits.maxWordLen limits.maxWordsPerLine (words line) limits.maxWordsPerLine

/-- Number of bytes that a list has for each word: its address and its length. -/
def wordSize : Nat := 16

/-- Reserves the list of a line's words, and splits the line. -/
def split (limits : Limits) (line : Text) : Attempt (Except WordError (List Text)) := do
  reserve wordSize limits.maxWordsPerLine
  return splitWords limits line

/-! ## §3 Equations -/

@[simp] theorem runs_nil : runs [] = [] := rfl

@[simp] theorem body_terminator (rest : Text) : body (';' :: rest) = [] := rfl

/-- Words within the limits are returned unchanged. -/
theorem enforce_eq_ok {maxLen max room : Nat} {ws out : List Text}
    (h : enforce maxLen max ws room = .ok out) : out = ws := by
  induction ws generalizing room out with
  | nil => simp only [enforce, Except.ok.injEq] at h; exact h.symm
  | cons w ws ih =>
    simp only [enforce] at h
    split at h
    · cases h
    · split at h
      · cases h
      · cases hr : enforce maxLen max ws (room - 1) with
        | error e => rw [hr] at h; cases h
        | ok rest =>
          rw [hr] at h
          cases h
          rw [ih hr]

end SensorScript.Source
