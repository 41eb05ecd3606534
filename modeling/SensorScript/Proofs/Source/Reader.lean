/-
SensorScript.Proofs.Source.Reader — a reader gives every line of a source once.

A reader at some place of a source gives the lines of what follows it (§1), so
at the start it gives those that `lines` cuts the whole source into. What each
of them is read as (§2) depends on its segment alone, and together they are the
source again (§3, `reads_each_line`).
-/
import SensorScript.Proofs.Source.Segments
import SensorScript.Source.Reader

namespace SensorScript.Source

variable {source rest segment : Bytes} {ended : List Bytes}

/-! ## §1 Lines still to come -/

namespace Reader

theorem decode_eq (r : Reader) (segment : Bytes) :
    r.decode segment = readLine r.maxLineLen segment := by
  have hpath : (if segment.contains carriageReturn then
      Utf8.decode (segment.filter (· ≠ carriageReturn)) else Utf8.decode segment) =
      Utf8.decode (stripReturns segment) := by
    split
    · rfl
    next hnone =>
      have hstrip : stripReturns segment = segment := by
        refine List.filter_eq_self.mpr fun b hb => decide_eq_true ?_
        rintro rfl
        exact hnone (List.contains_iff_mem.mpr hb)
      rw [hstrip]
  rw [decode, readLine, hpath, List.countP_eq_length_filter]
  rfl

variable {r : Reader}

theorem next?_nil (h : r.source.drop r.position = []) : r.next? = none := by
  rw [next?, if_pos (List.drop_eq_nil_iff.mp h)]

theorem next?_of_front {used : Nat} (hne : r.source.drop r.position ≠ [])
    (h : front (r.source.drop r.position) = (segment, used)) :
    r.next? = some (readLine r.maxLineLen segment,
      { r with position := r.position + used, line := r.line + 1 }) := by
  have hleft : ¬ r.source.length ≤ r.position := mt List.drop_eq_nil_iff.mpr hne
  rw [next?, if_neg hleft, h]
  simp only [decode_eq]

theorem findIdx?_newline (h : newline ∉ segment) : segment.findIdx? (· = newline) = none := by
  refine List.findIdx?_eq_none_iff.mpr fun b hb => decide_eq_false ?_
  rintro rfl
  exact h hb

theorem front_line (h : newline ∉ segment) (source : Bytes) :
    front (segment ++ newline :: source) = (segment, segment.length + 1) := by
  have hstop : (segment ++ newline :: source).findIdx? (· = newline) = some segment.length := by
    rw [List.findIdx?_append, findIdx?_newline h]
    simp [List.findIdx?_cons]
  rw [front, hstop]
  simp only [List.take_left]

theorem front_rest (h : newline ∉ rest) : front rest = (rest, rest.length) := by
  rw [front, findIdx?_newline h]

/-- What a reader still gives are the lines of the source from its place on, with their numbers. -/
theorem items_eq (h : Cut (r.source.drop r.position) ended rest) :
    r.items = (ended ++ unended rest).mapIdx
      fun k s => (r.line + k + 1, readLine r.maxLineLen s) := by
  generalize hleft : r.source.drop r.position = left at h
  induction h generalizing r with
  | @rest rest hrest =>
    by_cases hempty : rest = []
    · subst hempty
      rw [items_of_none (next?_nil hleft)]
      rfl
    · have hnext := next?_of_front (r := r) (by rwa [hleft]) (by rw [hleft, front_rest hrest])
      have hdone : r.source.drop (r.position + rest.length) = [] := by
        rw [← List.drop_drop, hleft, List.drop_length]
      rw [items_of_some hnext, items_of_none (next?_nil hdone), unended, if_neg hempty]
      rfl
  | @line s source ended rest hs hcut ih =>
    have hnext := next?_of_front (r := r) (by simp [hleft]) (by rw [hleft, front_line hs])
    have hbehind : r.source.drop (r.position + (s.length + 1)) = source := by
      rw [← List.drop_drop, hleft, ← List.drop_drop, List.drop_left, List.drop_one, List.tail_cons]
    rw [items_of_some hnext, ih hbehind]
    simp [Nat.add_assoc, Nat.add_comm 1]

/-- A reader in front of the first line. -/
def start (source : Bytes) (maxLineLen : Nat) : Reader := { source, maxLineLen }

end Reader

/-! ## §2 What a line is read as -/

/-- A segment is read as its text without carriage returns. It must not be too long and, if it is
not, must be UTF-8. -/
inductive ReadAs (max : Nat) (segment : Bytes) : Except LineError Text → Prop
  | tooLong (h : max < (stripReturns segment).length) :
      ReadAs max segment (.error (.tooLong (stripReturns segment).length max))
  | notUtf8 (hlength : (stripReturns segment).length ≤ max)
      (h : ¬ Utf8.Valid (stripReturns segment)) : ReadAs max segment (.error .notUtf8)
  | text {text : Text} (hlength : (stripReturns segment).length ≤ max)
      (h : Utf8.encode text = stripReturns segment) : ReadAs max segment (.ok text)

theorem readAs_readLine (max : Nat) (segment : Bytes) :
    ReadAs max segment (readLine max segment) := by
  unfold readLine
  simp only
  split
  next hlong => exact .tooLong hlong
  next hlength =>
    have hlength := Nat.le_of_not_lt hlength
    split
    next text htext => exact .text hlength (Utf8.encode_of_decode htext)
    next hnone => exact .notUtf8 hlength (Utf8.decode_eq_none_iff.mp hnone)

theorem ReadAs.encode_eq {max : Nat} {text : Text} (h : ReadAs max segment (.ok text)) :
    Utf8.encode text = stripReturns segment := by
  cases h with
  | text _ h => exact h

/-! ## §3 Whole sources -/

/-- A source is cut at its newlines into ended segments and a rest. Read to the end, it gives a
line for each ended segment and one for a rest that is not empty, numbered from one.

* These are the lines that the source is cut into at once.
* Each line is what its own segment is read as: it depends on nothing else in the source.
* When all of them are texts, these are the source without its carriage returns, joined by
  newlines.
* There is a line that is not UTF-8 exactly when the source without its carriage returns is not. -/
theorem reads_each_line (source : Bytes) (max : Nat) :
    ∃ ended rest, source.splitOn newline = ended ++ [rest] ∧
      let segments := ended ++ if rest = [] then [] else [rest]
      let items := (Reader.start source max).items
      items.length = source.count newline + (if rest = [] then 0 else 1) ∧
      items.length = segments.length ∧
      items.map (·.2) = lines max source ∧
      (∀ k s, segments[k]? = some s → ∃ line, items[k]? = some (k + 1, line) ∧ ReadAs max s line) ∧
      (∀ texts : List Text, items.map (·.2) = texts.map .ok →
        [newline].intercalate (texts.map Utf8.encode) ++
          (if source.getLast? = some newline then [newline] else []) = stripReturns source) ∧
      ((∃ s ∈ segments, ¬ Utf8.Valid (stripReturns s)) ↔ ¬ Utf8.Valid (stripReturns source)) := by
  obtain ⟨ended, rest, hcut⟩ := exists_cut source
  refine ⟨ended, rest, hcut.splitOn_eq, ?_⟩
  intro segments items
  have hlines : lines max source = segments.map (readLine max) := by
    rw [lines, hcut.segments_eq]
    rfl
  have hitems : items = segments.mapIdx fun k s => (k + 1, readLine max s) := by
    have h := Reader.items_eq (r := Reader.start source max) hcut
    simp only [Reader.start, Nat.zero_add] at h
    exact h
  have hlength : items.length = segments.length := by rw [hitems, List.length_mapIdx]
  have htexts : items.map (·.2) = segments.map (readLine max) := by
    refine List.ext_getElem? fun k => ?_
    simp only [hitems, List.getElem?_map, List.getElem?_mapIdx, Option.map_map]
    rfl
  refine ⟨?count, hlength, htexts.trans hlines.symm, ?each, ?joined, ?valid⟩
  case count =>
    rw [hlength, hcut.count_eq, List.length_append]
    split
    · rfl
    · rfl
  case each =>
    intro k s hs
    exact ⟨readLine max s, by simp [hitems, hs], readAs_readLine max s⟩
  case joined =>
    intro texts h
    have hread : List.Forall₂ (fun s text => readLine max s = .ok text) segments texts := by
      have heq := htexts.symm.trans h
      rw [← List.forall₂_eq_eq_eq, List.forall₂_map_left_iff, List.forall₂_map_right_iff] at heq
      exact heq
    have hencode : segments.map stripReturns = texts.map Utf8.encode := by
      rw [← List.forall₂_eq_eq_eq, List.forall₂_map_left_iff, List.forall₂_map_right_iff]
      exact hread.imp fun s text hs => ((hs ▸ readAs_readLine max s).encode_eq).symm
    rw [← hencode]
    exact hcut.join_stripped_eq
  case valid =>
    rw [hcut.valid_stripped_iff]
    simp only [not_forall, exists_prop]
    rfl

end SensorScript.Source
