/-
SensorScript.Proofs.Source.Lines — the texts of the lines of a source.

Reading a source gives the texts of its lines and then their words (§1). Every
list of texts without line ends is that of some source (§2).
-/
import Mathlib.Data.List.Forall2
import SensorScript.Proofs.Except
import SensorScript.Proofs.Forall2
import SensorScript.Proofs.Source.Words
import SensorScript.Proofs.Text.Utf8
import SensorScript.Source.Line

namespace SensorScript.Source

variable {limits : Limits} {source : Bytes} {texts : List Text} {lines : List (List Text)}

/-! ## §1 Texts and words -/

/-- The texts of the lines of a source, however long they are. -/
def TextsOf (source : Bytes) (texts : List Text) : Prop :=
  List.Forall₂ (fun s text => Utf8.decode (stripReturns s) = some text) (segments source) texts

instance (source : Bytes) (texts : List Text) : Decidable (TextsOf source texts) :=
  inferInstanceAs (Decidable (List.Forall₂ _ _ _))

/-- The words of every line of a source that can be read and split. -/
def WordsOf (limits : Limits) (source : Bytes) (lines : List (List Text)) : Prop :=
  List.Forall₂
    (fun line words => ∃ text, line = .ok text ∧ splitWords limits text = .ok words)
    (Source.lines limits.maxLineLen source) lines

instance (source : Bytes) (lines : List (List Text)) : Decidable (WordsOf limits source lines) :=
  decidable_of_iff (List.Forall₂
    (fun line words =>
      line.toOption.bind (fun text => (splitWords limits text).toOption) = some words)
    (Source.lines limits.maxLineLen source) lines) (by
      simp only [Option.bind_eq_some_iff, toOption_eq_some_iff]
      exact Iff.rfl)

/-- A line of this text is read, and has no more and no longer words than it may. -/
structure Readable (limits : Limits) (text : Text) : Prop where
  length : Utf8.size text ≤ limits.maxLineLen
  words : splitWords limits text = .ok (words text)

instance (limits : Limits) (text : Text) : Decidable (Readable limits text) :=
  decidable_of_iff (Utf8.size text ≤ limits.maxLineLen ∧ splitWords limits text = .ok (words text))
    ⟨fun h => ⟨h.1, h.2⟩, fun h => ⟨h.length, h.words⟩⟩

theorem TextsOf.unique {texts' : List Text} (h : TextsOf source texts)
    (h' : TextsOf source texts') : texts = texts' := by
  refine List.right_unique_forall₂' ?_ h h'
  intro s text text' htext htext'
  exact Option.some.inj (htext.symm.trans htext')

theorem readLine_eq_ok_iff {max : Nat} {s : Bytes} {text : Text} :
    readLine max s = .ok text ↔
      Utf8.decode (stripReturns s) = some text ∧ Utf8.size text ≤ max := by
  have hsize (h : Utf8.decode (stripReturns s) = some text) :
      Utf8.size text = (stripReturns s).length := by
    rw [Utf8.size, Utf8.encode_of_decode h]
  unfold readLine
  simp only
  constructor
  · intro h
    split at h
    · cases h
    next hle =>
      split at h
      next hdecode =>
        cases h
        exact ⟨hdecode, by rw [hsize hdecode]; omega⟩
      · cases h
  · intro h
    obtain ⟨hdecode, hle⟩ := h
    rw [hsize hdecode] at hle
    rw [if_neg (by omega), hdecode]

theorem wordsOf_iff :
    WordsOf limits source lines ↔
      ∃ texts, TextsOf source texts ∧ (∀ text ∈ texts, Readable limits text) ∧
        lines = texts.map words := by
  unfold WordsOf Source.lines
  rw [List.forall₂_map_left_iff]
  constructor
  · intro h
    obtain ⟨texts, hread, hsplit⟩ := exists_forall₂ (h.imp fun s words h => h)
    have hwords : List.Forall₂ (fun ws text => ws = words text) lines texts :=
      hsplit.imp fun _ _ h => enforce_eq_ok h
    refine ⟨texts, hread.imp fun _ _ h => (readLine_eq_ok_iff.mp h).1, ?_, ?_⟩
    · intro text htext
      obtain ⟨s, _, hs⟩ := exists_mem_of_forall₂ hread htext
      obtain ⟨ws, _, hws⟩ := exists_mem_of_forall₂ hsplit htext
      exact ⟨(readLine_eq_ok_iff.mp hs).2, enforce_eq_ok hws ▸ hws⟩
    · rw [← List.forall₂_eq_eq_eq, List.forall₂_map_right_iff]
      exact hwords
  · intro h
    obtain ⟨texts, htexts, hfits, rfl⟩ := h
    rw [List.forall₂_map_right_iff]
    refine forall₂_imp_mem htexts ?_
    intro s _ text htext hdecode
    have hfits := hfits text htext
    exact ⟨text, readLine_eq_ok_iff.mpr ⟨hdecode, hfits.length⟩, hfits.words⟩

theorem WordsOf.unique {lines' : List (List Text)} (h : WordsOf limits source lines)
    (h' : WordsOf limits source lines') : lines = lines' := by
  obtain ⟨texts, htexts, _, rfl⟩ := wordsOf_iff.mp h
  obtain ⟨texts', htexts', _, rfl⟩ := wordsOf_iff.mp h'
  rw [htexts.unique htexts']

/-! ## §2 Sources of given texts -/

/-- Characters are those of a line when their bytes have no line end among them. -/
theorem forall_isLineChar_iff {text : Text} :
    (∀ c ∈ text, isLineChar c = true) ↔
      newline ∉ Utf8.encode text ∧ carriageReturn ∉ Utf8.encode text := by
  have hchar (c : Char) :
      isLineChar c = true ↔ c.toNat ≠ newline.toNat ∧ c.toNat ≠ carriageReturn.toNat := by
    have hinj (d : Char) : c.toNat = d.toNat ↔ c = d :=
      ⟨fun h => Char.ext (UInt32.toNat_inj.mp h), fun h => h ▸ rfl⟩
    rw [show newline.toNat = '\n'.toNat from rfl, show carriageReturn.toNat = '\r'.toNat from rfl,
      Ne, Ne, hinj, hinj]
    simp [isLineChar]
  rw [Utf8.mem_encode_iff (by decide), Utf8.mem_encode_iff (by decide)]
  simp only [hchar, not_exists, not_and, ← forall_and]

theorem isLineChar_of_textsOf (h : TextsOf source texts) :
    ∀ text ∈ texts, ∀ c ∈ text, isLineChar c = true := by
  intro text htext
  obtain ⟨s, hs, hdecode⟩ := exists_mem_of_forall₂ h htext
  rw [forall_isLineChar_iff, Utf8.encode_of_decode hdecode]
  constructor
  · intro hmem
    exact newline_notMem_segments source s hs (List.mem_filter.mp hmem).1
  · intro hmem
    simpa using (List.mem_filter.mp hmem).2

theorem segments_line {s : Bytes} (h : newline ∉ s) (rest : Bytes) :
    segments (s ++ newline :: rest) = s :: segments rest := by
  induction s with
  | nil => exact segments_newline rest
  | cons b s ih =>
    obtain ⟨hb, hs⟩ := not_or.mp (mt List.mem_cons.mpr h)
    rw [List.cons_append, segments_cons, ih hs, addByte, if_neg (Ne.symm hb)]

/-- A source with lines of these texts. -/
def write (texts : List Text) : Bytes := texts.flatMap fun text => Utf8.encode text ++ [newline]

theorem textsOf_write (h : ∀ text ∈ texts, ∀ c ∈ text, isLineChar c = true) :
    TextsOf (write texts) texts := by
  induction texts with
  | nil => exact .nil
  | cons text texts ih =>
    obtain ⟨htext, htexts⟩ := List.forall_mem_cons.mp h
    obtain ⟨hnewline, hreturn⟩ := forall_isLineChar_iff.mp htext
    rw [TextsOf, write, List.flatMap_cons, List.append_assoc, List.singleton_append,
      segments_line hnewline]
    refine .cons ?_ (ih htexts)
    have hstrip : stripReturns (Utf8.encode text) = Utf8.encode text := by
      refine List.filter_eq_self.mpr fun b hb => decide_eq_true ?_
      intro heq
      exact hreturn (heq ▸ hb)
    rw [hstrip, Utf8.decode_encode]

/-- The line of a text without line ends is read as that text, if it is not too long. -/
theorem lines_write {text : Text} (h : ∀ c ∈ text, isLineChar c = true) {max : Nat}
    (hsize : Utf8.size text ≤ max) : Source.lines max (write [text]) = [.ok text] := by
  have htexts : TextsOf (write [text]) [text] := textsOf_write (List.forall_mem_singleton.mpr h)
  rw [Source.lines, ← List.map_singleton, ← List.forall₂_eq_eq_eq, List.forall₂_map_left_iff,
    List.forall₂_map_right_iff]
  refine forall₂_imp_mem htexts fun s _ t ht hdecode => ?_
  obtain rfl := List.mem_singleton.mp ht
  exact readLine_eq_ok_iff.mpr ⟨hdecode, hsize⟩

end SensorScript.Source
