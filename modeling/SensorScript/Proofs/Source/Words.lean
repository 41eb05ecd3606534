/-
SensorScript.Proofs.Source.Words — a line is its words and what is around them.

Separators, a comment and the ends of the line only tell the words apart
(§1, §2). So other words can be written in the place of those of a line, and
nothing else on it changes (§3). The limits are kept when every word keeps its
own and there is room for all (§4). No line is split for limits of 2⁵⁹ words or
more (§5).
-/
import Mathlib.Algebra.Group.Nat.Defs
import SensorScript.Proofs.Except
import SensorScript.Source.Words

namespace SensorScript.Source

variable {c : Char} {line w : Text}

/-! ## §1 One character at a time -/

/-- The runs of the part of a line that holds its words. -/
def bodyRuns (line : Text) : Runs := (body line).foldr Runs.add ⟨[], []⟩

theorem toList_bodyRuns (line : Text) : (bodyRuns line).toList = words line := rfl

theorem body_cons_terminator (h : isTerminator c = true) (line : Text) : body (c :: line) = [] := by
  simp [body, h]

theorem body_cons (h : isTerminator c = false) (line : Text) :
    body (c :: line) = c :: body line := by
  simp [body, h]

theorem bodyRuns_terminator (h : isTerminator c = true) (line : Text) :
    bodyRuns (c :: line) = ⟨[], []⟩ := by
  simp [bodyRuns, body_cons_terminator h]

theorem isTerminator_of_isSeparator (h : isSeparator c = true) : isTerminator c = false := by
  simp only [isSeparator, Bool.or_eq_true, decide_eq_true_eq] at h
  obtain (rfl | rfl) | rfl := h
  all_goals rfl

theorem bodyRuns_separator (h : isSeparator c = true) (line : Text) :
    bodyRuns (c :: line) = ⟨[], words line⟩ := by
  simp [bodyRuns, body_cons (isTerminator_of_isSeparator h), Runs.add, h, ← toList_bodyRuns]

theorem bodyRuns_cons (ht : isTerminator c = false) (hs : isSeparator c = false) (line : Text) :
    bodyRuns (c :: line) = ⟨c :: (bodyRuns line).first, (bodyRuns line).others⟩ := by
  simp [bodyRuns, body_cons ht, Runs.add, hs]

@[simp] theorem words_nil : words [] = [] := rfl

theorem words_terminator (h : isTerminator c = true) (line : Text) : words (c :: line) = [] := by
  rw [← toList_bodyRuns, bodyRuns_terminator h]
  rfl

theorem words_separator (h : isSeparator c = true) (line : Text) :
    words (c :: line) = words line := by
  rw [← toList_bodyRuns, bodyRuns_separator h]
  rfl

theorem words_cons (ht : isTerminator c = false) (hs : isSeparator c = false) (line : Text) :
    words (c :: line) = (c :: (bodyRuns line).first) :: (bodyRuns line).others := by
  rw [← toList_bodyRuns, bodyRuns_cons ht hs]
  rfl

/-- What does not go on with a word has its own words. -/
theorem words_append {first rest : Text} (hfirst : ∀ c ∈ first, isTerminator c = false)
    (hrest : (bodyRuns rest).first = []) : words (first ++ rest) = words first ++ words rest := by
  have hwords : words rest = (bodyRuns rest).others := by
    rw [← toList_bodyRuns, Runs.toList, if_pos hrest]
  have happend (r : Runs) :
      (Runs.mk r.first (r.others ++ words rest)).toList = r.toList ++ words rest := by
    unfold Runs.toList
    split
    · rfl
    · rfl
  suffices h : bodyRuns (first ++ rest) =
      ⟨(bodyRuns first).first, (bodyRuns first).others ++ words rest⟩ by
    rw [← toList_bodyRuns, h, happend, toList_bodyRuns]
  induction first with
  | nil =>
    rw [hwords]
    exact congrArg (Runs.mk · (bodyRuns rest).others) hrest
  | cons c first ih =>
    obtain ⟨ht, hfirst⟩ := List.forall_mem_cons.mp hfirst
    cases hs : isSeparator c with
    | true =>
      rw [List.cons_append, bodyRuns_separator hs, bodyRuns_separator hs, ← toList_bodyRuns,
        ih hfirst, happend, toList_bodyRuns]
    | false => rw [List.cons_append, bodyRuns_cons ht hs, bodyRuns_cons ht hs, ih hfirst]

/-- A comment has no words. -/
theorem words_comment (hline : ∀ c ∈ line, isTerminator c = false) (comment : Text) :
    words (line ++ ';' :: comment) = words line := by
  have hcomment : words (';' :: comment) = [] := words_terminator rfl comment
  rw [words_append hline rfl, hcomment, List.append_nil]

/-- It does not matter how many separators, and which ones, stand between words. -/
theorem words_gap {gap : Text} (hline : ∀ c ∈ line, isTerminator c = false) (hgap : gap ≠ [])
    (hseparators : ∀ c ∈ gap, isSeparator c = true) (rest : Text) :
    words (line ++ (gap ++ rest)) = words line ++ words rest := by
  have hwords : words (gap ++ rest) = words rest := by
    clear hgap
    induction gap with
    | nil => rfl
    | cons c gap ih =>
      obtain ⟨hc, hseparators⟩ := List.forall_mem_cons.mp hseparators
      rw [List.cons_append, words_separator hc, ih hseparators]
  obtain ⟨c, gap, rfl⟩ := List.exists_cons_of_ne_nil hgap
  obtain ⟨hc, _⟩ := List.forall_mem_cons.mp hseparators
  rw [words_append hline (by rw [List.cons_append, bodyRuns_separator hc]), hwords]

/-! ## §2 Words -/

/-- Characters that a line of a source can hold. -/
def isLineChar (c : Char) : Bool := !(c = '\n' || c = '\r')

/-- Characters that a word of a source can hold. -/
def isWordChar (c : Char) : Bool := !isTerminator c && !isSeparator c && isLineChar c

theorem isWordChar_iff :
    isWordChar c = true ↔
      isTerminator c = false ∧ isSeparator c = false ∧ isLineChar c = true := by
  simp [isWordChar, and_assoc]

/-- The text can stand as one word on a line. -/
structure IsWord (w : Text) : Prop where
  nonempty : w ≠ []
  chars : ∀ c ∈ w, isWordChar c = true

instance (w : Text) : Decidable (IsWord w) :=
  decidable_of_iff (w ≠ [] ∧ w.all isWordChar = true)
    ⟨fun h => ⟨h.1, List.all_eq_true.mp h.2⟩,
      fun h => ⟨h.nonempty, List.all_eq_true.mpr h.chars⟩⟩

/-- Lines of a source are split into words that it can hold. -/
theorem isWord_of_mem_words (hline : ∀ c ∈ line, isLineChar c = true) :
    ∀ w ∈ words line, IsWord w := by
  have hruns : (∀ c ∈ (bodyRuns line).first, isWordChar c = true) ∧
      ∀ w ∈ (bodyRuns line).others, IsWord w := by
    induction line with
    | nil => exact ⟨List.forall_mem_nil _, List.forall_mem_nil _⟩
    | cons c line ih =>
      obtain ⟨hc, hline⟩ := List.forall_mem_cons.mp hline
      obtain ⟨hfirst, hothers⟩ := ih hline
      cases ht : isTerminator c with
      | true =>
        rw [bodyRuns_terminator ht]
        exact ⟨List.forall_mem_nil _, List.forall_mem_nil _⟩
      | false =>
        cases hs : isSeparator c with
        | true =>
          rw [bodyRuns_separator hs, ← toList_bodyRuns, Runs.toList]
          refine ⟨List.forall_mem_nil _, ?_⟩
          split
          · exact hothers
          next hne => exact List.forall_mem_cons.mpr ⟨⟨hne, hfirst⟩, hothers⟩
        | false =>
          rw [bodyRuns_cons ht hs]
          exact ⟨List.forall_mem_cons.mpr ⟨isWordChar_iff.mpr ⟨ht, hs, hc⟩, hfirst⟩, hothers⟩
  rw [← toList_bodyRuns, Runs.toList]
  split
  · exact hruns.2
  next hne => exact List.forall_mem_cons.mpr ⟨⟨hne, hruns.1⟩, hruns.2⟩

/-- Characters that end a word. -/
def isBreak (c : Char) : Bool := isTerminator c || isSeparator c

theorem isBreak_iff : isBreak c = true ↔ c ∈ [' ', '\t', ',', ';'] := by
  simp only [isBreak, isTerminator, isSeparator, Bool.or_eq_true, decide_eq_true_eq, List.mem_cons,
    List.not_mem_nil, or_false]
  rw [or_comm, or_assoc, or_assoc]

theorem isBreak_eq_false_iff : isBreak c = false ↔ isTerminator c = false ∧ isSeparator c = false :=
  Bool.or_eq_false_iff

theorem IsWord.not_isBreak (h : IsWord w) : ∀ c ∈ w, isBreak c = false := by
  intro c hc
  obtain ⟨ht, hs, _⟩ := isWordChar_iff.mp (h.chars c hc)
  exact isBreak_eq_false_iff.mpr ⟨ht, hs⟩

/-- A word in front of a line is longer by what the line starts with. -/
theorem bodyRuns_append (hw : ∀ c ∈ w, isBreak c = false) (line : Text) :
    bodyRuns (w ++ line) = ⟨w ++ (bodyRuns line).first, (bodyRuns line).others⟩ := by
  induction w with
  | nil => rfl
  | cons c w ih =>
    obtain ⟨hc, hw⟩ := List.forall_mem_cons.mp hw
    obtain ⟨ht, hs⟩ := isBreak_eq_false_iff.mp hc
    rw [List.cons_append, bodyRuns_cons ht hs, ih hw]
    rfl

/-- A text without a break in it is one word. -/
theorem words_of_not_isBreak (hne : w ≠ []) (hw : ∀ c ∈ w, isBreak c = false) : words w = [w] := by
  have h := bodyRuns_append hw []
  rw [List.append_nil] at h
  rw [← toList_bodyRuns, h, Runs.toList]
  simp [hne, bodyRuns, body]

/-- Separators after a word end it. -/
theorem words_word {gap : Text} (hne : w ≠ []) (hw : ∀ c ∈ w, isBreak c = false) (hgap : gap ≠ [])
    (hseparators : ∀ c ∈ gap, isSeparator c = true) (rest : Text) :
    words (w ++ (gap ++ rest)) = w :: words rest := by
  have hline : ∀ c ∈ w, isTerminator c = false := fun c hc => (isBreak_eq_false_iff.mp (hw c hc)).1
  rw [words_gap hline hgap hseparators, words_of_not_isBreak hne hw, List.singleton_append]

/-! ## §3 Other words in their place -/

/-- The line with other words in the place of its own. `inside` is true in the
middle of a word, whose replacement is written already. -/
def respellFrom : Bool → Text → List Text → Text
  | _, [], _ => []
  | inside, c :: line, ws =>
    if isTerminator c then c :: line
    else if isSeparator c then c :: respellFrom false line ws
    else if inside then respellFrom true line ws
    else ws.headD [] ++ respellFrom true line ws.tail

/-- The line with other words in the place of its own. -/
def respell (line : Text) (ws : List Text) : Text := respellFrom false line ws

section Respell

variable {inside : Bool} {ws : List Text}

theorem respellFrom_terminator (h : isTerminator c = true) (line : Text) (ws : List Text) :
    respellFrom inside (c :: line) ws = c :: line := by
  simp [respellFrom, h]

theorem respellFrom_separator (h : isSeparator c = true) (line : Text) (ws : List Text) :
    respellFrom inside (c :: line) ws = c :: respellFrom false line ws := by
  simp [respellFrom, isTerminator_of_isSeparator h, h]

theorem respellFrom_true (ht : isTerminator c = false) (hs : isSeparator c = false) (line : Text)
    (ws : List Text) : respellFrom true (c :: line) ws = respellFrom true line ws := by
  simp [respellFrom, ht, hs]

theorem respellFrom_false (ht : isTerminator c = false) (hs : isSeparator c = false) (line w : Text)
    (ws : List Text) : respellFrom false (c :: line) (w :: ws) = w ++ respellFrom true line ws := by
  simp [respellFrom, ht, hs]

/-- A line has the words that were written on it, as many as it had before. -/
theorem words_respell (hlength : ws.length = (words line).length) (hws : ∀ w ∈ ws, IsWord w) :
    words (respell line ws) = ws := by
  -- In the middle of a word the words still to be written are those of the other runs.
  suffices h : (ws.length = (bodyRuns line).others.length →
        bodyRuns (respellFrom true line ws) = ⟨[], ws⟩) ∧
      (ws.length = (words line).length → words (respellFrom false line ws) = ws) from h.2 hlength
  clear hlength
  induction line generalizing ws with
  | nil =>
    constructor
    all_goals
      intro hlength
      rw [List.length_eq_zero_iff.mp hlength]
      rfl
  | cons c line ih =>
    cases ht : isTerminator c with
    | true =>
      rw [bodyRuns_terminator ht, words_terminator ht, respellFrom_terminator ht,
        respellFrom_terminator ht, bodyRuns_terminator ht, words_terminator ht]
      constructor
      all_goals
        intro hlength
        rw [List.length_eq_zero_iff.mp hlength]
    | false =>
      cases hs : isSeparator c with
      | true =>
        rw [bodyRuns_separator hs, words_separator hs, respellFrom_separator hs,
          respellFrom_separator hs, bodyRuns_separator hs, words_separator hs]
        have hrest := (ih hws).2
        exact ⟨fun hlength => by rw [hrest hlength], hrest⟩
      | false =>
        rw [bodyRuns_cons ht hs, words_cons ht hs, respellFrom_true ht hs]
        refine ⟨(ih hws).1, fun hlength => ?_⟩
        cases ws with
        | nil => cases hlength
        | cons w ws =>
          obtain ⟨hw, hws⟩ := List.forall_mem_cons.mp hws
          have hrest := (ih hws).1 (Nat.succ.inj hlength)
          rw [respellFrom_false ht hs, ← toList_bodyRuns, bodyRuns_append hw.not_isBreak, hrest,
            List.append_nil, Runs.toList, if_neg hw.nonempty]

/-- A line with its own words in their place is the same line. -/
theorem respell_words (line : Text) : respell line (words line) = line := by
  suffices h : (bodyRuns line).first ++ respellFrom true line (bodyRuns line).others = line ∧
      respellFrom false line (words line) = line from h.2
  induction line with
  | nil => exact ⟨rfl, rfl⟩
  | cons c line ih =>
    obtain ⟨hinside, hline⟩ := ih
    cases ht : isTerminator c with
    | true =>
      rw [respellFrom_terminator ht, respellFrom_terminator ht, bodyRuns_terminator ht]
      exact ⟨rfl, rfl⟩
    | false =>
      cases hs : isSeparator c with
      | true =>
        rw [respellFrom_separator hs, respellFrom_separator hs, bodyRuns_separator hs,
          words_separator hs, hline]
        exact ⟨rfl, rfl⟩
      | false =>
        rw [respellFrom_true ht hs, bodyRuns_cons ht hs, words_cons ht hs, respellFrom_false ht hs,
          List.cons_append, hinside]
        exact ⟨rfl, rfl⟩

/-- What holds of all characters of the line and of the words holds of the line
with these words. -/
theorem forall_mem_respell {P : Char → Prop} (hline : ∀ c ∈ line, P c)
    (hws : ∀ w ∈ ws, ∀ c ∈ w, P c) : ∀ c ∈ respell line ws, P c := by
  unfold respell
  generalize false = inside
  induction line generalizing inside ws with
  | nil => exact nofun
  | cons c line ih =>
    obtain ⟨hc, hrest⟩ := List.forall_mem_cons.mp hline
    unfold respellFrom
    split
    · exact hline
    split
    · exact List.forall_mem_cons.mpr ⟨hc, ih hrest hws false⟩
    split
    · exact ih hrest hws true
    · cases ws with
      | nil => exact ih hrest hws true
      | cons w ws =>
        obtain ⟨hw, hws⟩ := List.forall_mem_cons.mp hws
        exact List.forall_mem_append.mpr ⟨hw, ih hrest hws true⟩

end Respell

/-! ## §4 Limits -/

/-- Words are within the limits when each of them is and there is room for all. -/
theorem enforce_eq_ok_iff {maxLen max room : Nat} {ws : List Text} :
    enforce maxLen max ws room = .ok ws ↔ (∀ w ∈ ws, w.length ≤ maxLen) ∧ ws.length ≤ room := by
  induction ws generalizing room with
  | nil => exact iff_of_true rfl ⟨List.forall_mem_nil _, Nat.zero_le _⟩
  | cons w ws ih =>
    rw [List.forall_mem_cons, List.length_cons, enforce]
    split
    next hlong =>
      constructor
      · intro h
        cases h
      · rintro ⟨⟨hlength, _⟩, _⟩
        exact absurd hlong (Nat.not_lt.mpr hlength)
    next hshort =>
      split
      next hroom =>
        constructor
        · intro h
          cases h
        · rintro ⟨_, hlength⟩
          omega
      next hroom =>
        have hrest : (enforce maxLen max ws (room - 1)).map (w :: ·) = .ok (w :: ws) ↔
            enforce maxLen max ws (room - 1) = .ok ws := by
          rw [map_eq_ok_iff]
          constructor
          · rintro ⟨ws', hws, heq⟩
            rw [hws, (List.cons.inj heq).2]
          · intro hws
            exact ⟨ws, hws, rfl⟩
        rw [hrest, ih]
        constructor
        · rintro ⟨hlengths, hlength⟩
          exact ⟨⟨Nat.le_of_not_lt hshort, hlengths⟩, by omega⟩
        · rintro ⟨⟨_, hlengths⟩, hlength⟩
          exact ⟨hlengths, by omega⟩

/-! ## §5 The list of the words -/

section Reserve

variable {limits : Limits}

theorem reserve_of_room (h : limits.maxWordsPerLine < 2 ^ 59) :
    reserve wordSize limits.maxWordsPerLine = .ok () :=
  if_pos (by show 16 * _ ≤ 0x7FFFFFFFFFFFFFFF; omega)

theorem reserve_of_no_room (h : 2 ^ 59 ≤ limits.maxWordsPerLine) :
    reserve wordSize limits.maxWordsPerLine = .error .capacityOverflow :=
  if_neg (by show ¬ 16 * _ ≤ 0x7FFFFFFFFFFFFFFF; omega)

theorem split_of_room (h : limits.maxWordsPerLine < 2 ^ 59) (line : Text) :
    split limits line = .ok (splitWords limits line) := by
  rw [split, reserve_of_room h]
  rfl

theorem split_of_no_room (h : 2 ^ 59 ≤ limits.maxWordsPerLine) (line : Text) :
    split limits line = .error .capacityOverflow := by
  rw [split, reserve_of_no_room h]
  rfl

end Reserve

end SensorScript.Source
