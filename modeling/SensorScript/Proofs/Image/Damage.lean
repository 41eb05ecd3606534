/-
SensorScript.Proofs.Image.Damage — bytes of an image that are cut off or go on.

The byte form of an image is its fields one after the other (`fields`), and a
reader takes each of them at once. `Stops` says that a reader of such fields,
when the buffer ends too early, fails at the first field that does not fit.
`Takes` adds what the reader gives when all of them are there, which is where
the next reader starts, so it holds of readers in sequence. A byte form that is
cut is told from one that is followed by other bytes, and neither is ever taken
for another image (`damaged_bytes_refused`).

  §1 the first field that does not fit;
  §2 readers of a buffer that ends too early;
  §3 the fields of an image, and images.
-/
import SensorScript.Proofs.Image.Canonical

namespace SensorScript.Image

/-! ## §1 Cuts -/

/-- Of some fields one after the other, the first that does not fit in `size`
bytes starts at `start`. -/
def CutAt (fields : List Bytes) (size start : Nat) : Prop :=
  ∃ before field after, fields = before ++ field :: after ∧ start = before.flatten.length ∧
    start ≤ size ∧ size < start + field.length

section Readers

variable {fields more : List Bytes} {size start : Nat}

theorem CutAt.append (h : CutAt fields size start) (more : List Bytes) :
    CutAt (fields ++ more) size start := by
  obtain ⟨before, field, after, rfl, hstart⟩ := h
  exact ⟨before, field, after ++ more, by simp, hstart⟩

theorem CutAt.behind (h : CutAt more size start) (fields : List Bytes) :
    CutAt (fields ++ more) (fields.flatten.length + size) (fields.flatten.length + start) := by
  obtain ⟨before, field, after, rfl, rfl, hle, hlt⟩ := h
  exact ⟨fields ++ before, field, after, by simp, by simp, by omega, by omega⟩

/-- Only one of the fields is the first. -/
theorem CutAt.unique {other : Nat} (h : CutAt fields size start) (h' : CutAt fields size other) :
    other = start := by
  obtain ⟨before, field, after, rfl, rfl, hle, hlt⟩ := h
  obtain ⟨before', field', after', heq, rfl, hle', hlt'⟩ := h'
  rcases List.append_eq_append_iff.mp heq with ⟨between, rfl, hsplit⟩ | ⟨between, rfl, hsplit⟩
  · cases between with
    | nil => simp
    | cons first between =>
      obtain ⟨rfl, _⟩ := List.cons.inj hsplit
      simp only [List.flatten_append, List.flatten_cons, List.length_append] at hle'
      omega
  · cases between with
    | nil => simp
    | cons first between =>
      obtain ⟨rfl, _⟩ := List.cons.inj hsplit
      simp only [List.flatten_append, List.flatten_cons, List.length_append] at hle
      omega

/-! ## §2 Readers -/

variable {α β : Type}

/-- From a buffer that ends before the last of some fields does, the reader fails
at the first field that does not fit. -/
def Stops (read : Cursor → Except ImageError β) (fields : List Bytes) : Prop :=
  ∀ position size, size < fields.flatten.length → ∃ start, CutAt fields size start ∧
    read ⟨position, fields.flatten.take size⟩ = .error (.truncated (position + start))

/-- No buffer ends before nothing does. -/
theorem stops_nil (read : Cursor → Except ImageError β) : Stops read [] := by
  intro position size h
  cases h

/-- The reader takes exactly these fields off the front of any buffer and gives `a`,
and a buffer that ends too early makes it fail at the first one that does not fit. -/
structure Takes (read : Reader α) (fields : List Bytes) (a : α) : Prop where
  reads : Reads read fields.flatten a
  stops : Stops read fields

/-- What follows a reader fails behind the fields that were read. -/
theorem Takes.seq {read : Reader α} {a : α} {next : α × Cursor → Except ImageError β}
    (h : Takes read fields a) (hnext : Stops (fun c => next (a, c)) more) :
    Stops (fun c => read c >>= next) (fields ++ more) := by
  intro position size hsize
  rw [List.flatten_append, List.length_append] at hsize
  rw [List.flatten_append]
  show ∃ start, _ ∧ (read _ >>= next) = _
  rcases Nat.lt_or_ge size fields.flatten.length with hlt | hge
  · obtain ⟨start, hcut, herror⟩ := h.stops position size hlt
    refine ⟨start, hcut.append more, ?_⟩
    rw [List.take_append_of_le_length (Nat.le_of_lt hlt), herror]
    rfl
  · obtain ⟨size, rfl⟩ := Nat.exists_eq_add_of_le hge
    obtain ⟨start, hcut, herror⟩ := hnext (position + fields.flatten.length) size (by omega)
    refine ⟨_, hcut.behind fields, ?_⟩
    rw [List.take_length_add_append, h.reads.step, ← Nat.add_assoc]
    exact herror

theorem take_takes (field : Bytes) : Takes (take field.length) [field] field := by
  constructor
  · rw [List.flatten_singleton]
    exact take_reads field
  · intro position size h
    rw [List.flatten_singleton] at h
    have hshort : (field.take size).length < field.length := by
      rw [List.length_take]
      omega
    refine ⟨0, ⟨[], field, [], rfl, rfl, Nat.zero_le size, by omega⟩, ?_⟩
    rw [List.flatten_singleton, take, List.take_of_length_le (Nat.le_of_lt hshort),
      if_neg (Nat.ne_of_lt hshort)]
    rfl

theorem flatten_flatMap (as : List α) (write : α → List Bytes) :
    (as.flatMap write).flatten = as.flatMap fun a => (write a).flatten := by
  simp only [List.flatten_eq_flatMap, List.flatMap_assoc]

theorem readMany_takes {read : Reader α} {write : α → List Bytes} (as : List α)
    (h : ∀ a ∈ as, Takes read (write a) a) :
    Takes (readMany read as.length) (as.flatMap write) as := by
  induction as with
  | nil => exact ⟨fun _ _ => rfl, stops_nil _⟩
  | cons a as ih =>
    have has := ih fun b hb => h b (.tail a hb)
    refine ⟨?_, (h a (.head as)).seq ?_⟩
    · rw [flatten_flatMap]
      exact readMany_reads (a :: as) fun b hb => (h b hb).reads
    · rw [← List.append_nil (List.flatten _)]
      exact has.seq (stops_nil _)

theorem readNumber_takes (n : UInt32) : Takes readNumber [word32 n] n :=
  ⟨readNumber_reads n, (take_takes (word32 n)).seq (stops_nil _)⟩

end Readers

/-! ## §3 Images -/

def wordFields (w : MachineWord) : List Bytes := [word32 w.part1, word32 w.part2]

def functionFields (f : ImageFunction) : List Bytes :=
  [word32 (UInt32.ofNat (Utf8.encode f.name).length), Utf8.encode f.name, word32 f.start,
    word32 f.stop]

/-- What the byte form of an image consists of, every name and every number of 32
bits being a field of its own. -/
def fields (image : Image) : List Bytes :=
  [word32 magic, word32 (UInt32.ofNat image.words.length),
    word32 (UInt32.ofNat image.functions.length)] ++
    image.words.flatMap wordFields ++ image.functions.flatMap functionFields

theorem flatten_wordFields (w : MachineWord) : (wordFields w).flatten = wordBytes w := by
  simp [wordFields, wordBytes]

theorem flatten_functionFields (f : ImageFunction) :
    (functionFields f).flatten = functionBytes f := by
  simp [functionFields, functionBytes]

theorem flatten_fields (image : Image) : image.fields.flatten = image.toBytes := by
  simp [fields, toBytes, flatten_flatMap, flatten_wordFields, flatten_functionFields]

theorem readWord_takes (w : MachineWord) : Takes readWord (wordFields w) w := by
  constructor
  · rw [flatten_wordFields]
    exact readWord_reads w
  · refine (readNumber_takes w.part1).seq ?_
    exact (readNumber_takes w.part2).seq (stops_nil _)

theorem readFunction_takes (f : ImageFunction) (h : Utf8.size f.name < UInt32.size) :
    Takes readFunction (functionFields f) f := by
  constructor
  · rw [flatten_functionFields]
    exact readFunction_reads f h
  · have hlen : (UInt32.ofNat (Utf8.encode f.name).length).toNat = (Utf8.encode f.name).length :=
      UInt32.toNat_ofNat_of_lt' h
    refine (readNumber_takes _).seq ?_
    simp only [hlen]
    refine (take_takes _).seq ?_
    -- The whole name was there, so it is valid when it is judged.
    simp only [Utf8.decode_encode]
    refine (readNumber_takes f.start).seq ?_
    dsimp only
    exact (readNumber_takes f.stop).seq (stops_nil _)

/-- A byte form that ends too early is refused at the first field that does not fit. -/
theorem ofBytes_take {image : Image} (h : image.Writable) {size : Nat}
    (hsize : size < image.toBytes.length) : ∃ start, CutAt image.fields size start ∧
      ofBytes (image.toBytes.take size) = .error (.truncated start) := by
  have hwords := readMany_takes image.words fun w _ => readWord_takes w
  have hfunctions := readMany_takes image.functions fun f hf => readFunction_takes f (h.names f hf)
  rw [← UInt32.toNat_ofNat_of_lt' h.words] at hwords
  rw [← UInt32.toNat_ofNat_of_lt' h.functions] at hfunctions
  rw [← flatten_fields] at hsize ⊢
  suffices h : ∃ start, CutAt image.fields size start ∧
      ofBytes (image.fields.flatten.take size) = .error (.truncated (0 + start)) by
    simpa only [Nat.zero_add] using h
  unfold ofBytes
  refine (readNumber_takes magic).seq ?_ 0 size hsize
  simp only [ne_eq, not_true, if_false]
  refine (readNumber_takes _).seq ?_
  dsimp only
  refine (readNumber_takes _).seq ?_
  dsimp only
  refine hwords.seq ?_
  dsimp only
  rw [← List.append_nil (List.flatMap _ _)]
  exact hfunctions.seq (stops_nil _)

/-- The byte form of an image is its fields one after the other. When it ends too early it is
refused as truncated at the first field that does not fit, and when other bytes follow it as
having that many of them. So no image is read from a part of the byte form of another one. -/
theorem damaged_bytes_refused {image : Image} (h : image.Writable) :
    image.fields.flatten = image.toBytes ∧
    (∀ size < image.toBytes.length, ∃ start, CutAt image.fields size start ∧
      ofBytes (image.toBytes.take size) = .error (.truncated start)) ∧
    (∀ tail, tail ≠ [] →
      ofBytes (image.toBytes ++ tail) = .error (.trailingBytes tail.length)) ∧
    ∀ other : Image, other.Writable → image.toBytes <+: other.toBytes → other = image := by
  have htail (tail : Bytes) (hne : tail ≠ []) :
      ofBytes (image.toBytes ++ tail) = .error (.trailingBytes tail.length) := by
    rw [ofBytes_toBytes_append image h.words h.functions h.names, if_neg hne]
  refine ⟨flatten_fields image, fun _ => ofBytes_take h, htail, ?_⟩
  rintro other hother ⟨tail, heq⟩
  have hread := ofBytes_toBytes other hother.words hother.functions hother.names
  rw [← heq] at hread
  cases tail with
  | nil =>
    rw [List.append_nil] at hread
    exact Except.ok.inj (hread.symm.trans (ofBytes_toBytes image h.words h.functions h.names))
  | cons byte tail =>
    rw [htail _ (List.cons_ne_nil byte tail)] at hread
    cases hread

/-- The first byte of a two-byte character is there and the second is not. -/
theorem damaged_inside_character :
    let image : Image := ⟨[⟨1, 2⟩], [⟨['é'], 0, 1⟩]⟩
    image.Writable ∧ CutAt image.fields 25 24 ∧
      ofBytes (image.toBytes.take 25) = .error (.truncated 24) ∧
      ofBytes (image.toBytes ++ [0]) = .error (.trailingBytes 1) := by
  intro image
  have hwritable : image.Writable := ⟨by decide, by decide, by decide⟩
  obtain ⟨_, hcut, htail, _⟩ := damaged_bytes_refused hwritable
  obtain ⟨start, hat, herror⟩ := hcut 25 (by decide)
  have hname : CutAt image.fields 25 24 :=
    ⟨image.fields.take 6, [0xc3, 0xa9], image.fields.drop 7, by decide, by decide, by decide,
      by decide⟩
  cases hname.unique hat
  exact ⟨hwritable, hat, herror, htail [0] (List.cons_ne_nil 0 [])⟩

end SensorScript.Image
