/-
SensorScript.Proofs.Source.Segments — a source cut at its newlines.

Every source is some segments, each ended by a newline, and a rest without one
(§1, `Cut`). Its lines are the segments and the rest, unless the rest is empty.
Without the carriage returns the same cut is made (§2), and whether the bytes
are UTF-8 can be told segment by segment, since a newline is never inside of a
character (§3).
-/
import SensorScript.Proofs.Source.Lines

namespace SensorScript.Source

variable {source rest : Bytes} {ended : List Bytes}

/-! ## §1 Cuts -/

/-- The source is the ended segments, each with a newline behind it, and the rest. -/
inductive Cut : Bytes → List Bytes → Bytes → Prop
  | rest {rest : Bytes} (h : newline ∉ rest) : Cut rest [] rest
  | line {s source : Bytes} {ended : List Bytes} {rest : Bytes} (h : newline ∉ s)
      (hcut : Cut source ended rest) : Cut (s ++ newline :: source) (s :: ended) rest

/-- The lines that a rest makes: none when it is empty. -/
def unended (rest : Bytes) : List Bytes := if rest = [] then [] else [rest]

theorem exists_cut (source : Bytes) : ∃ ended rest, Cut source ended rest := by
  induction source with
  | nil => exact ⟨[], [], .rest (List.not_mem_nil)⟩
  | cons b source ih =>
    obtain ⟨ended, rest, hcut⟩ := ih
    by_cases hb : b = newline
    · subst hb
      exact ⟨[] :: ended, rest, .line (List.not_mem_nil) hcut⟩
    · have hmem {s : Bytes} (h : newline ∉ s) : newline ∉ b :: s := by
        simpa [Ne.symm hb] using h
      cases hcut with
      | rest h => exact ⟨[], b :: source, .rest (hmem h)⟩
      | line h hcut => exact ⟨_, rest, .line (hmem h) hcut⟩

theorem segments_of_notMem {s : Bytes} (h : newline ∉ s) : segments s = unended s := by
  induction s with
  | nil => rfl
  | cons b s ih =>
    obtain ⟨hb, hs⟩ := not_or.mp (mt List.mem_cons.mpr h)
    rw [segments_cons, ih hs]
    unfold addByte
    rw [if_neg (Ne.symm hb)]
    cases s with
    | nil => rfl
    | cons _ _ => rfl

/-- A source is split at a newline, and then what is before it and what is behind it. -/
theorem splitOn_append_newline (front back : Bytes) :
    (front ++ newline :: back).splitOn newline =
      front.splitOn newline ++ back.splitOn newline := by
  rw [List.splitOn_eq_splitOnP, List.splitOn_eq_splitOnP, List.splitOn_eq_splitOnP]
  exact List.splitOnP_append_cons front back (beq_self_eq_true newline)

namespace Cut

theorem segments_eq (h : Cut source ended rest) : segments source = ended ++ unended rest := by
  induction h with
  | rest h => exact segments_of_notMem h
  | line h _ ih => rw [segments_line h, ih, List.cons_append]

theorem splitOn_eq (h : Cut source ended rest) : source.splitOn newline = ended ++ [rest] := by
  induction h with
  | rest h => exact List.splitOn_eq_singleton h
  | line h _ ih => rw [splitOn_append_newline, List.splitOn_eq_singleton h, ih]; rfl

theorem count_eq (h : Cut source ended rest) : source.count newline = ended.length := by
  induction h with
  | rest h => exact List.count_eq_zero.mpr h
  | line h _ ih =>
    rw [List.count_append, List.count_cons_self, List.count_eq_zero.mpr h, ih, List.length_cons,
      Nat.zero_add]

theorem lines_eq_nil_iff (h : Cut source ended rest) :
    ended ++ unended rest = [] ↔ source = [] := by
  cases h with
  | rest _ => simp [unended]
  | line _ _ => simp

/-- The lines joined by newlines, with another one behind the last if the source ends in one, are
the source. -/
theorem join_lines_eq (h : Cut source ended rest) :
    [newline].intercalate (ended ++ unended rest) ++
      (if source.getLast? = some newline then [newline] else []) = source := by
  induction h with
  | @rest rest h =>
    have hlast : rest.getLast? ≠ some newline := fun hlast => h (List.mem_of_getLast? hlast)
    rw [if_neg hlast, List.append_nil, List.nil_append, unended]
    split
    next hempty => rw [hempty, List.intercalate_nil]
    next => exact List.intercalate_singleton
  | @line s source ended rest _ hcut ih =>
    cases source with
    | nil => simp [hcut.lines_eq_nil_iff.mpr rfl]
    | cons b source =>
      have hne : ended ++ unended rest ≠ [] :=
        mt hcut.lines_eq_nil_iff.mp (List.cons_ne_nil b source)
      have hlast : (s ++ newline :: b :: source).getLast? = (b :: source).getLast? := by
        rw [List.getLast?_append_of_ne_nil _ (List.cons_ne_nil _ _), List.getLast?_cons_cons]
      rw [List.cons_append, List.intercalate_cons_of_ne_nil hne, hlast, List.append_assoc, ih,
        List.append_assoc, List.singleton_append]

end Cut

/-- Only an empty source has no lines. -/
theorem lines_eq_nil_iff {max : Nat} : lines max source = [] ↔ source = [] := by
  obtain ⟨ended, rest, hcut⟩ := exists_cut source
  rw [lines, List.map_eq_nil_iff, hcut.segments_eq, hcut.lines_eq_nil_iff]

/-! ## §2 Carriage returns -/

@[simp] theorem stripReturns_stripReturns (s : Bytes) :
    stripReturns (stripReturns s) = stripReturns s := by
  simp [stripReturns]

theorem stripReturns_append (s t : Bytes) :
    stripReturns (s ++ t) = stripReturns s ++ stripReturns t :=
  List.filter_append ..

theorem notMem_stripReturns {b : UInt8} {s : Bytes} (h : b ∉ s) : b ∉ stripReturns s :=
  fun hmem => h (List.mem_filter.mp hmem).1

/-- Newlines between segments are kept. -/
theorem stripReturns_intercalate (ss : List Bytes) :
    stripReturns ([newline].intercalate ss) = [newline].intercalate (ss.map stripReturns) := by
  induction ss with
  | nil => rfl
  | cons s ss ih =>
    cases ss with
    | nil => rw [List.intercalate_singleton, List.map_singleton, List.intercalate_singleton]
    | cons t ss =>
      rw [List.intercalate_cons_cons, stripReturns_append, stripReturns_append, ih]
      simp only [List.map_cons, List.intercalate_cons_cons]
      rfl

/-- Without its carriage returns a source is cut where it was cut before. -/
theorem Cut.stripReturns (h : Cut source ended rest) :
    Cut (stripReturns source) (ended.map Source.stripReturns) (Source.stripReturns rest) := by
  induction h with
  | rest h => exact .rest (notMem_stripReturns h)
  | line h _ ih =>
    rw [stripReturns_append]
    exact .line (notMem_stripReturns h) ih

/-- The lines without their carriage returns, joined by newlines as they were, are the source
without its own. -/
theorem Cut.join_stripped_eq (h : Cut source ended rest) :
    [newline].intercalate ((ended ++ unended rest).map Source.stripReturns) ++
      (if source.getLast? = some newline then [newline] else []) = Source.stripReturns source := by
  have hend : Source.stripReturns (if source.getLast? = some newline then [newline] else []) =
      if source.getLast? = some newline then [newline] else [] := by
    split
    · rfl
    · rfl
  rw [← stripReturns_intercalate, ← hend, ← stripReturns_append, h.join_lines_eq]

/-! ## §3 Validity -/

theorem valid_append_newline_iff {front back : Bytes} :
    Utf8.Valid (front ++ newline :: back) ↔ Utf8.Valid front ∧ Utf8.Valid back :=
  Utf8.valid_append_ascii_iff (c := '\n') (by decide)

/-- The bytes of a source are those of a text when those of all segments and of the rest are. -/
theorem Cut.valid_iff (h : Cut source ended rest) :
    Utf8.Valid source ↔ (∀ s ∈ ended, Utf8.Valid s) ∧ Utf8.Valid rest := by
  induction h with
  | rest _ => simp
  | line _ _ ih => rw [valid_append_newline_iff, ih, List.forall_mem_cons, and_assoc]

/-- The same, line by line and without carriage returns. -/
theorem Cut.valid_stripped_iff (h : Cut source ended rest) :
    Utf8.Valid (Source.stripReturns source) ↔
      ∀ s ∈ ended ++ unended rest, Utf8.Valid (Source.stripReturns s) := by
  have hrest : Utf8.Valid (Source.stripReturns rest) ↔
      ∀ s ∈ unended rest, Utf8.Valid (Source.stripReturns s) := by
    rw [unended]
    split
    next hempty => simp [hempty, Source.stripReturns, Utf8.valid_nil]
    next => rw [List.forall_mem_singleton]
  rw [h.stripReturns.valid_iff, List.forall_mem_map, hrest, List.forall_mem_append]

end SensorScript.Source
