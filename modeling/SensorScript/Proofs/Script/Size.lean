/-
SensorScript.Proofs.Script.Size — a script is no larger than its source.

Every instruction and every function takes a row, every row a line and every
line a byte; a name is a word of a line, and a line part of the source. So the
counts and the lengths of names in an image fit 32 bits when the length of the
source does.
-/
import SensorScript.Proofs.Forall2
import SensorScript.Proofs.Script.Reading
import SensorScript.Proofs.Text.Utf8

namespace SensorScript

/-! ## §1 Lines -/

namespace Source

theorem length_addByte_le (b : UInt8) (segments : List Bytes) :
    (addByte b segments).length ≤ segments.length + 1 := by
  unfold addByte
  split
  · exact Nat.le_refl _
  · cases segments with
    | nil => exact Nat.le_refl _
    | cons s rest => exact Nat.le_succ _

theorem length_segments_le (source : Bytes) : (segments source).length ≤ source.length := by
  induction source with
  | nil => exact Nat.le_refl _
  | cons b source ih =>
    exact Nat.le_trans (length_addByte_le b _) (Nat.succ_le_succ ih)

theorem length_le_of_mem_segments (source : Bytes) :
    ∀ s ∈ segments source, s.length ≤ source.length := by
  induction source with
  | nil => exact nofun
  | cons b source ih =>
    have hlater : ∀ s ∈ segments source, s.length ≤ (b :: source).length :=
      fun s hs => Nat.le_succ_of_le (ih s hs)
    rw [segments_cons]
    unfold addByte
    split
    · exact List.forall_mem_cons.mpr ⟨Nat.zero_le _, hlater⟩
    · split
      next => exact List.forall_mem_singleton.mpr (Nat.succ_le_succ (Nat.zero_le _))
      next s rest hs =>
        rw [hs] at ih hlater
        exact List.forall_mem_cons.mpr ⟨Nat.succ_le_succ (ih s List.mem_cons_self),
          (List.forall_mem_cons.mp hlater).2⟩

/-- A line has no more bytes than its source. -/
theorem size_le_of_mem_lines {max : Nat} {source : Bytes} {text : Text}
    (h : .ok text ∈ lines max source) : Utf8.size text ≤ source.length := by
  obtain ⟨s, hs, h⟩ := List.mem_map.mp h
  unfold readLine at h
  simp only at h
  split at h
  · cases h
  · split at h
    next hdecode =>
      cases h
      rw [Utf8.size, Utf8.encode_of_decode hdecode]
      exact Nat.le_trans (List.length_filter_le ..) (length_le_of_mem_segments source s hs)
    · cases h

/-! ## §2 Words -/

theorem size_le_of_mem_toList {r : Runs} {n : Nat} (hfirst : Utf8.size r.first ≤ n)
    (hothers : ∀ w ∈ r.others, Utf8.size w ≤ n) : ∀ w ∈ r.toList, Utf8.size w ≤ n := by
  unfold Runs.toList
  split
  · exact hothers
  · exact List.forall_mem_cons.mpr ⟨hfirst, hothers⟩

/-- Every run is part of the text. -/
theorem size_le_of_mem_runs (text : Text) : ∀ w ∈ runs text, Utf8.size w ≤ Utf8.size text := by
  have hruns : Utf8.size (text.foldr Runs.add ⟨[], []⟩).first ≤ Utf8.size text ∧
      ∀ w ∈ (text.foldr Runs.add ⟨[], []⟩).others, Utf8.size w ≤ Utf8.size text := by
    induction text with
    | nil => exact ⟨Nat.le_refl _, nofun⟩
    | cons c text ih =>
      rw [List.foldr_cons, Utf8.size_cons, Runs.add]
      split
      · refine ⟨Nat.zero_le _, fun w hw => ?_⟩
        exact Nat.le_trans (size_le_of_mem_toList ih.1 ih.2 w hw) (Nat.le_add_left _ _)
      · refine ⟨?_, fun w hw => Nat.le_trans (ih.2 w hw) (Nat.le_add_left _ _)⟩
        rw [Utf8.size_cons]
        exact Nat.add_le_add_left ih.1 _
  exact size_le_of_mem_toList hruns.1 hruns.2

theorem size_le_of_mem_words (line : Text) : ∀ w ∈ words line, Utf8.size w ≤ Utf8.size line := by
  intro w hw
  have hbody : Utf8.size (body line) ≤ Utf8.size line := by
    have hsplit : body line ++ line.dropWhile (fun c => !isTerminator c) = line :=
      List.takeWhile_append_dropWhile
    have hsize := congrArg Utf8.size hsplit
    rw [Utf8.size_append] at hsize
    omega
  exact Nat.le_trans (size_le_of_mem_runs (body line) w hw) hbody

end Source

/-! ## §3 Scripts -/

theorem length_rowsFrom_le (line : Nat) (lines : List (List Text)) :
    (rowsFrom line lines).length ≤ lines.length := by
  induction lines generalizing line with
  | nil => exact Nat.le_refl _
  | cons words lines ih =>
    cases words with
    | nil => exact Nat.le_succ_of_le (ih _)
    | cons word words => exact Nat.succ_le_succ (ih _)

theorem words_mem_of_mem_rowsFrom {line : Nat} {lines : List (List Text)} {row : Row}
    (h : row ∈ rowsFrom line lines) : row.words ∈ lines := by
  induction lines generalizing line with
  | nil => cases h
  | cons words lines ih =>
    cases words with
    | nil => exact .tail _ (ih h)
    | cons word words =>
      rcases List.mem_cons.mp h with rfl | h
      · exact .head _
      · exact .tail _ (ih h)

namespace Script

variable {limits : Limits} {script : Script} {rows : List Row} {source : Bytes}

/-- Every instruction and every function takes a row. -/
theorem count_add_length_le (h : Written limits script rows) :
    count script + script.length ≤ rows.length := by
  obtain ⟨blocks, hb, rfl⟩ := h
  induction hb with
  | nil => exact Nat.le_refl _
  | cons hblock _ ih =>
    cases hblock with
    | @mk _ _ name items inside _ hinside =>
      have hcount : Block.count ⟨name, items⟩ ≤ inside.length := by
        rw [← hinside.length_eq]
        exact List.countP_le_length
      rw [count_cons, List.flatten_cons, List.length_append, List.length_cons,
        List.length_cons, List.length_append, List.length_singleton]
      omega

/-- A function name is a word of a row. -/
theorem name_mem_words (h : Written limits script rows) :
    ∀ b ∈ script, ∃ row ∈ rows, b.name ∈ row.words := by
  obtain ⟨blocks, hb, rfl⟩ := h
  intro b hmem
  obtain ⟨block, hblock, hwritten⟩ := exists_mem_of_forall₂ hb.flip hmem
  have hwritten : Block.Written limits b block := hwritten
  cases hwritten with
  | @mk first last name items inside _ _ =>
    exact ⟨Row.opening first name, List.mem_flatten.mpr ⟨_, hblock, .head _⟩, .tail _ (.head _)⟩

/-- The counts of a script and the lengths of its names, bounded by its source. -/
theorem size_le_of_source (h : OfSource limits source script) :
    count script + script.length ≤ source.length ∧
      ∀ b ∈ script, Utf8.size b.name ≤ source.length := by
  obtain ⟨lines, hlines, hs⟩ := h
  constructor
  · have hrows := length_rowsFrom_le 1 lines
    rw [← hlines.length_eq, Source.length_lines] at hrows
    exact Nat.le_trans (count_add_length_le hs)
      (Nat.le_trans hrows (Source.length_segments_le source))
  · intro b hb
    obtain ⟨row, hrow, hname⟩ := name_mem_words hs b hb
    obtain ⟨line, hline, text, rfl, hwords⟩ :=
      exists_mem_of_forall₂ hlines (words_mem_of_mem_rowsFrom hrow)
    rw [Source.enforce_eq_ok hwords] at hname
    exact Nat.le_trans (Source.size_le_of_mem_words text b.name hname)
      (Source.size_le_of_mem_lines hline)

end Script

end SensorScript
