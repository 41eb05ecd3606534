/-
SensorScript.Proofs.Source.Scanner — a scanned line is its longest runs of
characters that do not separate words.

  §1 what each pattern matches at the front of a text;
  §2 the tokens of a line are its words and its end (`Next`), so scanning a
     line is splitting it;
  §3 the words of a line are its runs (`Run`), in the order they stand in;
  §4 the limits are broken by the first word that is too long or too many.
-/
import Mathlib.Data.List.Basic
import Mathlib.Data.List.TakeWhile
import SensorScript.Proofs.List
import SensorScript.Proofs.Source.Words
import SensorScript.Source.Scanner

namespace SensorScript.Source

variable {c : Char} {line w : Text}

/-! ## §1 Patterns -/

namespace Scanner

theorem longest_separator (h : isSeparator c = true) (text : Text) :
    longest (c :: text) = (.gap, (text.takeWhile isSeparator).length + 1) := by
  simp [longest, Kind.pattern, Pattern.reach, h, isTerminator_of_isSeparator h]

theorem longest_terminator (h : isTerminator c = true) (text : Text) :
    longest (c :: text) = (.terminator, 1) := by
  have hs : isSeparator c = false := by
    refine Bool.eq_false_iff.mpr fun hs => ?_
    rw [isTerminator_of_isSeparator hs] at h
    cases h
  simp [longest, Kind.pattern, Pattern.reach, h, hs]

theorem longest_word (h : isBreak c = false) (text : Text) :
    longest (c :: text) = (.word, (text.takeWhile fun c => !isBreak c).length + 1) := by
  obtain ⟨ht, hs⟩ := isBreak_eq_false_iff.mp h
  have hclass : (fun c => !isSeparator c && !isTerminator c) = fun c => !isBreak c := by
    funext c
    rw [isBreak, Bool.not_or, Bool.and_comm]
  simp [longest, Kind.pattern, Pattern.reach, ht, hs, hclass, h]

theorem next?_separator (h : isSeparator c = true) (text : Text) :
    next? (c :: text) = next? (text.dropWhile isSeparator) := by
  rw [next?, longest_separator h]
  simp only [drop_length_takeWhile]

theorem next?_terminator (h : isTerminator c = true) (text : Text) :
    next? (c :: text) = some (.terminator, text) := by
  rw [next?, longest_terminator h]
  rfl

theorem next?_word (h : isBreak c = false) (text : Text) :
    next? (c :: text) =
      some (.word (c :: text.takeWhile fun c => !isBreak c),
        text.dropWhile fun c => !isBreak c) := by
  rw [next?, longest_word h]
  simp only [take_length_takeWhile, drop_length_takeWhile]

end Scanner

/-! ## §2 Tokens -/

/-- The front of a line that does not go on with a word. -/
theorem bodyRuns_of_head? (h : ∀ c ∈ line.head?, isBreak c = true) :
    bodyRuns line = ⟨[], words line⟩ := by
  cases line with
  | nil => rfl
  | cons c line =>
    obtain ht | hs := Bool.or_eq_true_iff.mp (h c rfl)
    · rw [bodyRuns_terminator ht, words_terminator ht]
    · rw [bodyRuns_separator hs, words_separator hs]

/-- A word reaches up to the first break, and the words behind it are those of the rest. -/
theorem words_append_of_head? (hne : w ≠ []) (hw : ∀ c ∈ w, isBreak c = false)
    (h : ∀ c ∈ line.head?, isBreak c = true) : words (w ++ line) = w :: words line := by
  rw [← toList_bodyRuns, bodyRuns_append hw, bodyRuns_of_head? h, Runs.toList, List.append_nil,
    if_neg hne]

theorem words_dropWhile_separator (line : Text) :
    words (line.dropWhile isSeparator) = words line := by
  induction line with
  | nil => rfl
  | cons c line ih =>
    cases hs : isSeparator c with
    | true => rw [List.dropWhile_cons_of_pos hs, ih, words_separator hs]
    | false => rw [List.dropWhile_cons_of_neg (by simp [hs])]

/-- What stands behind a run that is as long as it can be. -/
theorem isBreak_of_head?_dropWhile (line : Text) :
    ∀ d ∈ (line.dropWhile fun c => !isBreak c).head?, isBreak d = true := by
  intro d hd
  have hdrop := List.head?_dropWhile_not (fun c => !isBreak c) line
  rw [Option.mem_def.mp hd] at hdrop
  simpa using hdrop

theorem words_cons_of_not_isBreak (hc : isBreak c = false) (line : Text) :
    words (c :: line) =
      (c :: line.takeWhile fun c => !isBreak c) :: words (line.dropWhile fun c => !isBreak c) := by
  have hrun : ∀ d ∈ c :: line.takeWhile (fun c => !isBreak c), isBreak d = false := by
    refine List.forall_mem_cons.mpr ⟨hc, fun d hd => ?_⟩
    simpa using List.all_eq_true.mp List.all_takeWhile d hd
  have h := words_append_of_head? (List.cons_ne_nil _ _) hrun (isBreak_of_head?_dropWhile line)
  rwa [List.cons_append, List.takeWhile_append_dropWhile] at h

namespace Scanner

/-- What the next token tells about the words that are still to come. -/
inductive Next : List Text → Option (Token × Text) → Prop
  | finished : Next [] none
  | terminator {rest : Text} : Next [] (some (.terminator, rest))
  | word {w rest : Text} : Next (w :: words rest) (some (.word w, rest))

/-- Every character of a line is matched, and every token is a word or the end of the line. -/
theorem next (line : Text) : Next (words line) (next? line) := by
  generalize hn : line.length = n
  induction n using Nat.strongRecOn generalizing line with
  | ind n ih =>
    cases line with
    | nil => rw [next?]; exact .finished
    | cons c line =>
      cases hs : isSeparator c with
      | true =>
        have hlength : (line.dropWhile isSeparator).length < n := by
          rw [← hn, List.length_cons]
          exact Nat.lt_succ_of_le (List.dropWhile_suffix _).length_le
        rw [next?_separator hs, words_separator hs, ← words_dropWhile_separator]
        exact ih _ hlength _ rfl
      | false =>
        cases ht : isTerminator c with
        | true =>
          rw [next?_terminator ht, words_terminator ht]
          exact .terminator
        | false =>
          have hc : isBreak c = false := isBreak_eq_false_iff.mpr ⟨ht, hs⟩
          rw [next?_word hc, words_cons_of_not_isBreak hc]
          exact .word

theorem scan_of_nil (limits : Limits) (ws : List Text) {text : Text} (h : words text = []) :
    scan limits ws text = .ok ws := by
  have hnext := h ▸ next text
  rw [scan]
  generalize next? text = token at hnext
  cases hnext with
  | finished => rfl
  | terminator => rfl

theorem scan_of_cons (limits : Limits) (ws : List Text) {text : Text} {left : List Text}
    (h : words text = w :: left) :
    ∃ rest, words rest = left ∧
      scan limits ws text =
        if limits.maxWordLen < w.length then .error (.words (.tooLong w limits.maxWordLen))
        else if limits.maxWordsPerLine ≤ ws.length then
          .error (.words (.tooMany limits.maxWordsPerLine))
        else scan limits (ws ++ [w]) rest := by
  have hnext := h ▸ next text
  rw [scan]
  generalize next? text = token at hnext
  cases hnext with
  | word => exact ⟨_, rfl, rfl⟩

/-- Scanning on after some words is applying the limits to the words that are left. -/
theorem scan_eq (limits : Limits) (ws : List Text) (text : Text)
    (hws : ws.length ≤ limits.maxWordsPerLine) :
    scan limits ws text =
      ((enforce limits.maxWordLen limits.maxWordsPerLine (words text)
        (limits.maxWordsPerLine - ws.length)).map (ws ++ ·)).mapError .words := by
  generalize hleft : words text = left
  induction left generalizing ws text with
  | nil =>
    rw [scan_of_nil limits ws hleft]
    simp [enforce, Except.map, Except.mapError]
  | cons w left ih =>
    obtain ⟨rest, hrest, hscan⟩ := scan_of_cons limits ws hleft
    rw [hscan, enforce]
    by_cases hlong : limits.maxWordLen < w.length
    · rw [if_pos hlong, if_pos hlong]
      rfl
    by_cases hmany : limits.maxWordsPerLine ≤ ws.length
    · have hroom : limits.maxWordsPerLine - ws.length = 0 := Nat.sub_eq_zero_of_le hmany
      rw [if_neg hlong, if_pos hmany, if_neg hlong, if_pos hroom]
      rfl
    · have hroom : limits.maxWordsPerLine - ws.length ≠ 0 := Nat.sub_ne_zero_of_lt (by omega)
      have hlength : (ws ++ [w]).length = ws.length + 1 := by simp
      rw [if_neg hlong, if_neg hmany, if_neg hlong, if_neg hroom,
        ih (ws ++ [w]) rest (by omega) hrest, hlength, Nat.sub_sub]
      cases enforce limits.maxWordLen limits.maxWordsPerLine left
          (limits.maxWordsPerLine - (ws.length + 1)) with
      | error e => rfl
      | ok out => simp [Except.map, Except.mapError]

/-- A scanner splits a line as it is split at once, and never meets a character without a
pattern. -/
theorem split_eq (limits : Limits) (line : Text) :
    split limits line = (Source.split limits line).map (·.mapError .words) := by
  have hscan : scan limits [] line = (splitWords limits line).mapError .words := by
    rw [scan_eq limits [] line (Nat.zero_le _), splitWords]
    simp only [List.length_nil, Nat.sub_zero, List.nil_append]
    cases enforce limits.maxWordLen limits.maxWordsPerLine (words line) limits.maxWordsPerLine with
    | error e => rfl
    | ok out => rfl
  rw [split, Source.split, hscan]
  cases reserve wordSize limits.maxWordsPerLine with
  | error p => rfl
  | ok _ => rfl

end Scanner

/-! ## §3 Runs -/

/-- Characters that separate words, and the one that ends the line. -/
def breaks : List Char := [' ', '\t', ',', ';']

/-- The text `w` stands on a line between `before` and `after` as a longest run of characters that
are no breaks, and no semicolon is in front of it. -/
structure Run (line before w after : Text) : Prop where
  line_eq : line = before ++ w ++ after
  nonempty : w ≠ []
  unbroken : ∀ c ∈ w, c ∉ breaks
  starts : ∀ c ∈ before.getLast?, c ∈ breaks
  stops : ∀ c ∈ after.head?, c ∈ breaks
  in_body : ';' ∉ before

/-- A run, by the index of its first character. -/
def RunAt (line : Text) (i : Nat) (w : Text) : Prop :=
  ∃ before after, Run line before w after ∧ before.length = i

/-- All runs of a line in order, each by the index of its first character. -/
structure RunsOf (line : Text) (runs : List (Nat × Text)) : Prop where
  ordered : runs.Pairwise fun a b => a.1 < b.1
  mem_iff : ∀ i w, (i, w) ∈ runs ↔ RunAt line i w

theorem isBreak_eq_false_iff_notMem : isBreak c = false ↔ c ∉ breaks := by
  rw [← Bool.not_eq_true, isBreak_iff, breaks]

namespace Run

variable {front before after : Text}

/-- A run starts with a character that is no break. -/
theorem exists_head (h : Run line before w after) : ∃ c v, w = c :: v ∧ c ∉ breaks := by
  obtain ⟨c, v, rfl⟩ := List.exists_cons_of_ne_nil h.nonempty
  exact ⟨c, v, rfl, h.unbroken c (.head _)⟩

/-- A run is one as well when there is more in front of the line, unless it goes on with that. -/
theorem append_left (h : Run line before w after) (hbody : ';' ∉ front)
    (hend : before = [] → ∀ c ∈ front.getLast?, c ∈ breaks) :
    Run (front ++ line) (front ++ before) w after where
  line_eq := by rw [h.line_eq]; simp only [List.append_assoc]
  nonempty := h.nonempty
  unbroken := h.unbroken
  starts := by
    by_cases hbefore : before = []
    · rw [hbefore, List.append_nil]
      exact hend hbefore
    · rw [List.getLast?_append_of_ne_nil _ hbefore]
      exact h.starts
  stops := h.stops
  in_body := fun hmem => (List.mem_append.mp hmem).elim hbody h.in_body

theorem of_append_left (h : Run (front ++ line) (front ++ before) w after) :
    Run line before w after where
  line_eq := by
    have hline := h.line_eq
    rw [List.append_assoc, List.append_assoc, List.append_cancel_left_eq] at hline
    rw [hline, List.append_assoc]
  nonempty := h.nonempty
  unbroken := h.unbroken
  starts := by
    by_cases hbefore : before = []
    · simp [hbefore]
    · rw [← List.getLast?_append_of_ne_nil front hbefore]
      exact h.starts
  stops := h.stops
  in_body := fun hmem => h.in_body (List.mem_append_right front hmem)

end Run

theorem not_runAt_nil {i : Nat} : ¬ RunAt [] i w := by
  rintro ⟨before, after, h, _⟩
  have := h.line_eq
  simp [h.nonempty] at this

/-- A semicolon is in no run, and there is none behind it. -/
theorem not_runAt_terminator (hc : isTerminator c = true) {i : Nat} : ¬ RunAt (c :: line) i w := by
  obtain rfl : c = ';' := of_decide_eq_true hc
  rintro ⟨before, after, h, _⟩
  have heq := h.line_eq
  cases before with
  | nil =>
    obtain ⟨d, v, rfl, hd⟩ := h.exists_head
    cases heq
    exact hd (by decide)
  | cons d before =>
    cases heq
    exact h.in_body (.head _)

/-- A separator in front of a line moves its runs. -/
theorem runAt_separator_iff (hc : isSeparator c = true) {i : Nat} :
    RunAt (c :: line) i w ↔ ∃ j, i = 1 + j ∧ RunAt line j w := by
  have hbreak : c ∈ breaks := isBreak_iff.mp (by simp [isBreak, hc])
  constructor
  · rintro ⟨before, after, h, rfl⟩
    have heq := h.line_eq
    cases before with
    | nil =>
      obtain ⟨d, v, rfl, hd⟩ := h.exists_head
      cases heq
      exact absurd hbreak hd
    | cons d before =>
      cases heq
      have hrun : Run ([c] ++ (before ++ w ++ after)) ([c] ++ before) w after := h
      exact ⟨before.length, Nat.add_comm _ _, before, after, hrun.of_append_left, rfl⟩
  · rintro ⟨j, rfl, before, after, h, rfl⟩
    have hbody : ';' ∉ [c] := by
      rw [List.mem_singleton]
      rintro rfl
      cases hc
    exact ⟨c :: before, after, h.append_left hbody fun _ => by simpa using hbreak,
      Nat.add_comm _ _⟩

/-- A run reaches up to the first break. -/
theorem takeWhile_append_of_head? {after : Text} (hw : ∀ c ∈ w, c ∉ breaks)
    (hafter : ∀ c ∈ after.head?, c ∈ breaks) : (w ++ after).takeWhile (· ∉ breaks) = w := by
  rw [List.takeWhile_append_of_pos fun c hc => decide_eq_true (hw c hc)]
  cases after with
  | nil => simp
  | cons c after => rw [List.takeWhile_cons_of_neg (by simpa using hafter c rfl), List.append_nil]

/-- A run in front of a line, and then the runs of the line moved by its length. -/
theorem runAt_append_iff {first : Text} (hne : first ≠ []) (hfirst : ∀ c ∈ first, c ∉ breaks)
    (hline : ∀ c ∈ line.head?, c ∈ breaks) {i : Nat} :
    RunAt (first ++ line) i w ↔
      i = 0 ∧ w = first ∨ ∃ j, i = first.length + j ∧ RunAt line j w := by
  have hbody : ';' ∉ first := fun hmem => hfirst ';' hmem (by decide)
  constructor
  · rintro ⟨before, after, h, rfl⟩
    have heq := h.line_eq
    rw [List.append_assoc] at heq
    obtain ⟨rest, hrest, _⟩ | ⟨rest, rfl, rfl⟩ := List.append_eq_append_iff.mp heq.symm
    · cases hlast : before.getLast? with
      | none =>
        obtain rfl := List.getLast?_eq_none_iff.mp hlast
        refine .inl ⟨rfl, ?_⟩
        rw [← takeWhile_append_of_head? h.unbroken h.stops, ← List.nil_append (w ++ after), ← heq,
          takeWhile_append_of_head? hfirst hline]
      | some d =>
        have hmem : d ∈ first := hrest ▸ List.mem_append_left rest (List.mem_of_getLast? hlast)
        exact absurd (h.starts d hlast) (hfirst d hmem)
    · exact .inr ⟨rest.length, List.length_append, rest, after, h.of_append_left, rfl⟩
  · rintro (⟨rfl, rfl⟩ | ⟨j, rfl, before, after, h, rfl⟩)
    · refine ⟨[], line, ⟨rfl, hne, hfirst, nofun, hline, List.not_mem_nil⟩, rfl⟩
    · refine ⟨first ++ before, after, h.append_left hbody ?_, List.length_append⟩
      rintro rfl
      obtain ⟨c, v, rfl, hc⟩ := h.exists_head
      rw [h.line_eq] at hline
      exact absurd (hline c rfl) hc

/-- Runs that stand behind `n` further characters. -/
def moved (n : Nat) (runs : List (Nat × Text)) : List (Nat × Text) :=
  runs.map fun run => (n + run.1, run.2)

theorem map_snd_moved (n : Nat) (runs : List (Nat × Text)) :
    (moved n runs).map (·.2) = runs.map (·.2) := by
  simp [moved, Function.comp_def]

namespace RunsOf

variable {runs : List (Nat × Text)}

theorem mem_moved_iff (h : RunsOf line runs) {n i : Nat} :
    (i, w) ∈ moved n runs ↔ ∃ j, i = n + j ∧ RunAt line j w := by
  simp only [moved, List.mem_map, Prod.mk.injEq, Prod.exists]
  constructor
  · rintro ⟨j, v, hmem, rfl, rfl⟩
    exact ⟨j, rfl, (h.mem_iff j v).mp hmem⟩
  · rintro ⟨j, rfl, hrun⟩
    exact ⟨j, w, (h.mem_iff j w).mpr hrun, rfl, rfl⟩

theorem ordered_moved (h : RunsOf line runs) (n : Nat) :
    (moved n runs).Pairwise fun a b => a.1 < b.1 :=
  List.pairwise_map.mpr (h.ordered.imp fun hlt => Nat.add_lt_add_left hlt n)

theorem separator (h : RunsOf line runs) (hc : isSeparator c = true) :
    RunsOf (c :: line) (moved 1 runs) where
  ordered := h.ordered_moved 1
  mem_iff i w := by rw [h.mem_moved_iff, runAt_separator_iff hc]

theorem append {first : Text} (h : RunsOf line runs) (hne : first ≠ [])
    (hfirst : ∀ c ∈ first, c ∉ breaks) (hline : ∀ c ∈ line.head?, c ∈ breaks) :
    RunsOf (first ++ line) ((0, first) :: moved first.length runs) where
  ordered := by
    refine List.pairwise_cons.mpr ⟨fun run hrun => ?_, h.ordered_moved _⟩
    obtain ⟨j, hj, _⟩ := h.mem_moved_iff.mp hrun
    have := List.length_pos_iff.mpr hne
    omega
  mem_iff i w := by
    rw [List.mem_cons, h.mem_moved_iff, runAt_append_iff hne hfirst hline, Prod.mk.injEq]

end RunsOf

/-- The words of a line are its runs. -/
theorem exists_runsOf (line : Text) : ∃ runs, RunsOf line runs ∧ runs.map (·.2) = words line := by
  generalize hn : line.length = n
  induction n using Nat.strongRecOn generalizing line with
  | ind n ih =>
    cases line with
    | nil => exact ⟨[], ⟨.nil, fun i w => iff_of_false List.not_mem_nil not_runAt_nil⟩, rfl⟩
    | cons c line =>
      have hshort {rest : Text} (hrest : rest <:+ line) : rest.length < n := by
        rw [← hn]
        exact Nat.lt_succ_of_le hrest.length_le
      cases ht : isTerminator c with
      | true =>
        exact ⟨[], ⟨.nil, fun i w => iff_of_false List.not_mem_nil (not_runAt_terminator ht)⟩,
          (words_terminator ht line).symm⟩
      | false =>
        cases hs : isSeparator c with
        | true =>
          obtain ⟨runs, hruns, hwords⟩ := ih _ (hshort (List.suffix_refl line)) line rfl
          exact ⟨_, hruns.separator hs, by rw [map_snd_moved, hwords, words_separator hs]⟩
        | false =>
          have hc : isBreak c = false := isBreak_eq_false_iff.mpr ⟨ht, hs⟩
          obtain ⟨runs, hruns, hwords⟩ := ih _ (hshort (List.dropWhile_suffix _)) _ rfl
          have hfirst : ∀ d ∈ c :: line.takeWhile (fun c => !isBreak c), d ∉ breaks := by
            refine List.forall_mem_cons.mpr ⟨isBreak_eq_false_iff_notMem.mp hc, fun d hd => ?_⟩
            exact isBreak_eq_false_iff_notMem.mp
              (by simpa using List.all_eq_true.mp List.all_takeWhile d hd)
          have happend := hruns.append (List.cons_ne_nil _ _) hfirst
            fun d hd => isBreak_iff.mp (isBreak_of_head?_dropWhile line d hd)
          rw [List.cons_append, List.takeWhile_append_dropWhile] at happend
          refine ⟨_, happend, ?_⟩
          rw [List.map_cons, map_snd_moved, hwords, words_cons_of_not_isBreak hc]

/-! ## §4 Limits -/

/-- The word at place `k` is too long or one too many, and no word before it is. -/
structure FirstFault (maxLen room : Nat) (ws : List Text) (k : Nat) (w : Text) : Prop where
  place : ws[k]? = some w
  fault : maxLen < w.length ∨ room ≤ k
  before : ∀ j v, j < k → ws[j]? = some v → v.length ≤ maxLen ∧ j < room

/-- The limits are kept, or broken by a first word, whose length is judged before its number. -/
theorem enforce_verdict (maxLen max room : Nat) (ws : List Text) :
    (((∀ w ∈ ws, w.length ≤ maxLen) ∧ ws.length ≤ room) ∧ enforce maxLen max ws room = .ok ws) ∨
    ∃ k w, FirstFault maxLen room ws k w ∧
      enforce maxLen max ws room =
        .error (if maxLen < w.length then .tooLong w maxLen else .tooMany max) := by
  induction ws generalizing room with
  | nil => exact .inl ⟨⟨List.forall_mem_nil _, Nat.zero_le _⟩, rfl⟩
  | cons w ws ih =>
    rw [enforce]
    by_cases hlong : maxLen < w.length
    · refine .inr ⟨0, w, ⟨rfl, .inl hlong, fun j v hj => absurd hj (Nat.not_lt_zero j)⟩, ?_⟩
      rw [if_pos hlong, if_pos hlong]
    by_cases hroom : room = 0
    · have hbefore : ∀ j v, j < 0 → (w :: ws)[j]? = some v → v.length ≤ maxLen ∧ j < room :=
        fun j v hj => absurd hj (Nat.not_lt_zero j)
      refine .inr ⟨0, w, ⟨rfl, .inr (Nat.le_of_eq hroom), hbefore⟩, ?_⟩
      rw [if_neg hlong, if_pos hroom, if_neg hlong]
    rw [if_neg hlong, if_neg hroom]
    obtain ⟨⟨hlengths, hlength⟩, hok⟩ | ⟨k, v, hfault, herror⟩ := ih (room - 1)
    · refine .inl ⟨⟨List.forall_mem_cons.mpr ⟨Nat.le_of_not_lt hlong, hlengths⟩, ?_⟩, ?_⟩
      · rw [List.length_cons]
        omega
      · rw [hok]
        rfl
    · refine .inr ⟨k + 1, v, ⟨hfault.place, ?_, ?_⟩, ?_⟩
      · exact hfault.fault.imp_right fun h => by omega
      · intro j u hj hu
        cases j with
        | zero => cases hu; exact ⟨Nat.le_of_not_lt hlong, Nat.pos_of_ne_zero hroom⟩
        | succ j =>
          obtain ⟨hu, hj⟩ := hfault.before j u (Nat.lt_of_succ_lt_succ hj) hu
          exact ⟨hu, by omega⟩
      · rw [herror]
        rfl

/-- What follows the first semicolon of a line has no words. -/
theorem words_comment_body (line comment : Text) :
    words (line.takeWhile (· ≠ ';') ++ ';' :: comment) = words line := by
  have hbody : line.takeWhile (· ≠ ';') = body line := by
    simp only [body, isTerminator, decide_not]
  have hterminator : ∀ c ∈ body line, isTerminator c = false := fun c hc => by
    simpa using List.all_eq_true.mp List.all_takeWhile c hc
  have hself : body (body line) = body line := List.takeWhile_eq_self_iff.mpr fun c hc => by
    simpa using hterminator c hc
  rw [hbody, words_comment hterminator, words, hself, words]

/-- When the limits allow fewer than 2⁵⁹ words on a line, a line is scanned into its runs, in the
order they stand in, if each of them has at most as many characters as a word may have and there
are at most as many as a line may have. Otherwise the first run that breaks a limit is the error:
for its length if it is too long, also when it is one too many, and for the number of words if not.
Limits that allow more words than that make every line panic.

Scanning token by token gives what splitting the whole line gives, every character being matched,
and what follows the first semicolon is of no consequence. -/
theorem scans_into_runs (limits : Limits) (line : Text) :
    (limits.maxWordsPerLine < 2 ^ 59 → ∃ runs, RunsOf line runs ∧
      let ws := runs.map (·.2)
      ((∀ w ∈ ws, w.length ≤ limits.maxWordLen) ∧ ws.length ≤ limits.maxWordsPerLine) ∧
          Scanner.split limits line = .ok (.ok ws) ∨
        ∃ k w, FirstFault limits.maxWordLen limits.maxWordsPerLine ws k w ∧
          Scanner.split limits line = .ok (.error (.words
            (if limits.maxWordLen < w.length then .tooLong w limits.maxWordLen
              else .tooMany limits.maxWordsPerLine)))) ∧
    (2 ^ 59 ≤ limits.maxWordsPerLine → Scanner.split limits line = .error .capacityOverflow) ∧
    Scanner.split limits line = (split limits line).map (·.mapError .words) ∧
    ∀ comment,
      Scanner.split limits (line.takeWhile (· ≠ ';') ++ ';' :: comment) =
        Scanner.split limits line := by
  refine ⟨fun hroom => ?_, fun hlarge => ?_, Scanner.split_eq limits line, fun comment => ?_⟩
  · obtain ⟨runs, hruns, hwords⟩ := exists_runsOf line
    refine ⟨runs, hruns, ?_⟩
    rw [hwords, Scanner.split_eq, split_of_room hroom, splitWords]
    obtain ⟨hkept, hok⟩ | ⟨k, w, hfault, herror⟩ :=
      enforce_verdict limits.maxWordLen limits.maxWordsPerLine limits.maxWordsPerLine (words line)
    · exact .inl ⟨hkept, by rw [hok]; rfl⟩
    · exact .inr ⟨k, w, hfault, by rw [herror]; rfl⟩
  · rw [Scanner.split_eq, split_of_no_room hlarge]
    rfl
  · rw [Scanner.split_eq, Scanner.split_eq, split, split, splitWords, splitWords,
      words_comment_body]

/-- A line with a comment is split within the default limits. -/
theorem scans_commented_line :
    let line := "SHL R0, $1; by one".toList
    let ws := ["SHL".toList, "R0".toList, "$1".toList]
    (∃ runs, RunsOf line runs ∧ runs.map (·.2) = ws) ∧ Scanner.split {} line = .ok (.ok ws) := by
  intro line ws
  have hsplit : Scanner.split {} line = .ok (.ok ws) := by
    rw [Scanner.split_eq]
    decide
  obtain ⟨runs, hruns, ⟨_, hok⟩ | ⟨k, w, _, herror⟩⟩ := (scans_into_runs {} line).1 (by decide)
  · rw [hsplit] at hok
    exact ⟨⟨runs, hruns, (Except.ok.inj (Except.ok.inj hok)).symm⟩, hsplit⟩
  · rw [hsplit] at herror
    cases herror

/-- Limits that hold together and allow as many words as a number of 64 bits can say: a line of
three short words is not split. -/
theorem short_line_panics :
    let limits : Limits := { maxWordsPerLine := 0xFFFFFFFFFFFFFFFF }
    let line := "SHL R0, $1".toList
    let ws := ["SHL".toList, "R0".toList, "$1".toList]
    limits.check = .ok () ∧ words line = ws ∧
      (∀ w ∈ ws, w.length ≤ limits.maxWordLen) ∧ ws.length ≤ limits.maxWordsPerLine ∧
      Scanner.split limits line = .error .capacityOverflow := by
  refine ⟨by decide, by decide, ?_, by decide, ?_⟩
  · simp only [List.forall_mem_cons]
    exact ⟨by decide, by decide, by decide, List.forall_mem_nil _⟩
  · rw [Scanner.split, reserve_of_no_room (by decide)]
    rfl

end SensorScript.Source
