/-
SensorScript.Source.Scanner — a line split into words, token by token.

`splitWords` takes all words of a line at once and applies the limits to them.
A scanner finds one token after the other instead: gaps, words and the end of
the line have a pattern each, and the longest match is taken. Every word is
held against the limits as soon as it is found, and the first end of the line
is the last token that is looked at. Before all tokens, the list of the words is
reserved.
-/
import SensorScript.Source.Words

namespace SensorScript.Source

/-- A line that cannot be scanned. -/
inductive ScanError where
  | words (error : WordError)
  | invalidCharacter (text : Text)
  deriving DecidableEq

def ScanError.message : ScanError → String
  | .words e => e.message
  | .invalidCharacter text => s!"invalid character in '{text.toStr}'"

namespace Scanner

/-! ## §1 Patterns -/

/-- Characters of a class: a single one, or as many as there are. -/
structure Pattern where
  chars : Char → Bool
  many : Bool

/-- Number of characters that a pattern matches at the front of a text. -/
def Pattern.reach (p : Pattern) (text : Text) : Nat :=
  let run := (text.takeWhile p.chars).length
  if p.many then run else min run 1

/-- What a line is made of. -/
inductive Kind where
  | gap
  | word
  | terminator
  deriving DecidableEq

def Kind.pattern : Kind → Pattern
  | .gap => ⟨isSeparator, true⟩
  | .word => ⟨fun c => !isSeparator c && !isTerminator c, true⟩
  | .terminator => ⟨isTerminator, false⟩

/-- The longest match at the front of a text, of length zero when there is none. -/
def longest (text : Text) : Kind × Nat :=
  [Kind.word, .terminator].foldl
    (fun best kind =>
      if best.2 < kind.pattern.reach text then (kind, kind.pattern.reach text) else best)
    (.gap, Kind.gap.pattern.reach text)

/-! ## §2 Tokens -/

inductive Token where
  | word (w : Text)
  | terminator
  /-- A character that no pattern matches. -/
  | unknown (c : Char)
  deriving DecidableEq

/-- The next token and the text behind it. Gaps are passed over. -/
def next? (text : Text) : Option (Token × Text) :=
  match text with
  | [] => none
  | c :: rest =>
    match longest (c :: rest) with
    | (_, 0) => some (.unknown c, rest)
    | (.gap, n + 1) => next? (rest.drop n)
    | (.word, n + 1) => some (.word (c :: rest.take n), rest.drop n)
    | (.terminator, n + 1) => some (.terminator, rest.drop n)
termination_by text.length
decreasing_by
  rw [List.length_drop, List.length_cons]
  omega

theorem length_lt_of_next? {text rest : Text} {token : Token}
    (h : next? text = some (token, rest)) : rest.length < text.length := by
  fun_induction next? text with
  | case1 => cases h
  | case2 c text kind _ => cases h; exact Nat.lt_succ_self _
  | case3 c text n _ ih =>
    have := ih h
    rw [List.length_drop] at this
    rw [List.length_cons]
    omega
  | case4 c text n _ =>
    cases h
    rw [List.length_drop, List.length_cons]
    omega
  | case5 c text n _ =>
    cases h
    rw [List.length_drop, List.length_cons]
    omega

/-- The words so far and those of the text, within the limits. -/
def scan (limits : Limits) (words : List Text) (text : Text) : Except ScanError (List Text) :=
  match _h : next? text with
  | none => .ok words
  | some (.terminator, _) => .ok words
  | some (.unknown c, _) => .error (.invalidCharacter [c])
  | some (.word w, rest) =>
    if limits.maxWordLen < w.length then .error (.words (.tooLong w limits.maxWordLen))
    else if limits.maxWordsPerLine ≤ words.length then
      .error (.words (.tooMany limits.maxWordsPerLine))
    else scan limits (words ++ [w]) rest
termination_by text.length
decreasing_by exact length_lt_of_next? ‹_›

/-- Reserves the list of a line's words, and scans the line. -/
def split (limits : Limits) (line : Text) : Attempt (Except ScanError (List Text)) := do
  reserve wordSize limits.maxWordsPerLine
  return scan limits [] line

end Scanner

end SensorScript.Source
