/-
SensorScript.Proofs.Image.Canonical — bytes that are read as an image are the
byte form of that image.

`Reads` says that a reader accepts what is written. `Exact` goes the other way:
whatever a reader accepts is the written form of what it gives, and the rest is
left. So there is one byte form for every image and one image for every byte
form, and nothing else is accepted (`ofBytes_eq_ok_iff`).

  §1 numbers and counted lists;
  §2 the parts of an image, and images.
-/
import SensorScript.Proofs.Except
import SensorScript.Proofs.Image.Bytes

namespace SensorScript.Image

/-! ## §1 Readers -/

/-- Whatever the reader gives satisfies `P`, and its written form is what the
reader took off the front of the buffer. -/
def Exact {α : Type} (read : Reader α) (P : α → Prop) (write : α → Bytes) : Prop :=
  ∀ c a c', read c = .ok (a, c') → P a ∧ c.rest = write a ++ c'.rest

theorem take_eq_ok {n : Nat} {c c' : Cursor} {bytes : Bytes} (h : take n c = .ok (bytes, c')) :
    bytes.length = n ∧ c.rest = bytes ++ c'.rest := by
  simp only [take] at h
  split at h
  next hlen =>
    cases h
    exact ⟨hlen, (List.take_append_drop n c.rest).symm⟩
  · cases h

/-- Four bytes are the written form of the number that they are. -/
theorem word32_number32 {bytes : Bytes} (h : bytes.length = 4) :
    word32 (number32 bytes) = bytes := by
  match bytes, h with
  | [a, b, c, d], _ =>
    have ha := a.toNat_lt
    have hb := b.toNat_lt
    have hc := c.toNat_lt
    have hd := d.toNat_lt
    have hn : (number32 [a, b, c, d]).toNat =
        a.toNat + b.toNat * 0x100 + c.toNat * 0x10000 + d.toNat * 0x1000000 :=
      UInt32.toNat_ofNat_of_lt' (by show _ < 0x100000000; omega)
    have hbyte {x : UInt8} {n : Nat} (hx : n % 0x100 = x.toNat) : UInt8.ofNat n = x :=
      UInt8.toNat_inj.mp (by rw [UInt8.toNat_ofNat']; exact hx)
    rw [word32, hn, hbyte (x := a) (by omega), hbyte (x := b) (by omega),
      hbyte (x := c) (by omega), hbyte (x := d) (by omega)]

theorem exact_readNumber : Exact readNumber (fun _ => True) word32 := by
  intro c n c' h
  obtain ⟨⟨bytes, _⟩, hbytes, h⟩ := bind_eq_ok_iff.mp h
  cases h
  obtain ⟨hlen, hrest⟩ := take_eq_ok hbytes
  rw [word32_number32 hlen]
  exact ⟨trivial, hrest⟩

theorem exact_readMany {α : Type} {read : Reader α} {P : α → Prop} {write : α → Bytes}
    (h : Exact read P write) (n : Nat) :
    Exact (readMany read n) (fun as => as.length = n ∧ ∀ a ∈ as, P a)
      (fun as => as.flatMap write) := by
  induction n with
  | zero =>
    intro c as c' hread
    cases hread
    exact ⟨⟨rfl, nofun⟩, rfl⟩
  | succ n ih =>
    intro c as c' hread
    obtain ⟨⟨a, c₁⟩, ha, hread⟩ := bind_eq_ok_iff.mp hread
    obtain ⟨⟨as, c₂⟩, has, hread⟩ := bind_eq_ok_iff.mp hread
    cases hread
    obtain ⟨hPa, hrest⟩ := h _ _ _ ha
    obtain ⟨⟨hlen, hPas⟩, hrest'⟩ := ih _ _ _ has
    refine ⟨⟨congrArg (· + 1) hlen, List.forall_mem_cons.mpr ⟨hPa, hPas⟩⟩, ?_⟩
    show c.rest = (a :: as).flatMap write ++ c'.rest
    rw [hrest, hrest', List.flatMap_cons, List.append_assoc]

/-! ## §2 Images -/

theorem exact_readWord : Exact readWord (fun _ => True) wordBytes := by
  intro c w c' h
  obtain ⟨⟨part1, c₁⟩, h₁, h⟩ := bind_eq_ok_iff.mp h
  obtain ⟨⟨part2, c₂⟩, h₂, h⟩ := bind_eq_ok_iff.mp h
  cases h
  rw [wordBytes, (exact_readNumber _ _ _ h₁).2, (exact_readNumber _ _ _ h₂).2, List.append_assoc]
  exact ⟨trivial, rfl⟩

/-- The length of a name is read from 32 bits, and a name has one encoding, so
its written length and bytes are the ones that were read. -/
theorem exact_readFunction :
    Exact readFunction (fun f => Utf8.size f.name < UInt32.size) functionBytes := by
  intro c f c' h
  obtain ⟨⟨length, c₁⟩, hlength, h⟩ := bind_eq_ok_iff.mp h
  obtain ⟨⟨bytes, c₂⟩, hbytes, h⟩ := bind_eq_ok_iff.mp h
  simp only at h
  split at h
  · cases h
  next name hname =>
    obtain ⟨⟨start, c₃⟩, hstart, h⟩ := bind_eq_ok_iff.mp h
    obtain ⟨⟨stop, c₄⟩, hstop, h⟩ := bind_eq_ok_iff.mp h
    cases h
    obtain ⟨hlen, hrest⟩ := take_eq_ok hbytes
    have hencode := Utf8.encode_of_decode hname
    constructor
    · show (Utf8.encode name).length < _
      rw [hencode, hlen]
      exact length.toNat_lt
    · rw [(exact_readNumber _ _ _ hlength).2, hrest, (exact_readNumber _ _ _ hstart).2,
        (exact_readNumber _ _ _ hstop).2, functionBytes, hencode, hlen, UInt32.ofNat_toNat]
      simp only [List.append_assoc]

/-- The counts of an image and the lengths of its names fit the 32 bits that
they are written in. -/
structure Writable (image : Image) : Prop where
  words : image.words.length < UInt32.size
  functions : image.functions.length < UInt32.size
  names : ∀ f ∈ image.functions, Utf8.size f.name < UInt32.size

/-- An image that bytes are read as can be written, and as those bytes. -/
theorem toBytes_of_ofBytes {bytes : Bytes} {image : Image} (h : ofBytes bytes = .ok image) :
    image.Writable ∧ image.toBytes = bytes := by
  obtain ⟨⟨found, c⟩, hmagic, h⟩ := bind_eq_ok_iff.mp h
  simp only at h
  split at h
  · cases h
  next hfound =>
    have hfound : found = magic := Decidable.not_not.mp hfound
    subst hfound
    obtain ⟨⟨wordCount, c₁⟩, hwordCount, h⟩ := bind_eq_ok_iff.mp h
    obtain ⟨⟨functionCount, c₂⟩, hfunctionCount, h⟩ := bind_eq_ok_iff.mp h
    obtain ⟨⟨words, c₃⟩, hwords, h⟩ := bind_eq_ok_iff.mp h
    obtain ⟨⟨functions, c₄⟩, hfunctions, h⟩ := bind_eq_ok_iff.mp h
    simp only at h
    split at h
    next hend =>
      cases h
      obtain ⟨⟨hwordsLen, _⟩, hwordsRest⟩ := exact_readMany exact_readWord _ _ _ _ hwords
      obtain ⟨⟨hfunctionsLen, hnames⟩, hfunctionsRest⟩ :=
        exact_readMany exact_readFunction _ _ _ _ hfunctions
      refine ⟨⟨?_, ?_, hnames⟩, ?_⟩
      · exact hwordsLen ▸ wordCount.toNat_lt
      · exact hfunctionsLen ▸ functionCount.toNat_lt
      · have hbytes : bytes = word32 magic ++ c.rest := (exact_readNumber _ _ _ hmagic).2
        rw [hbytes, (exact_readNumber _ _ _ hwordCount).2, (exact_readNumber _ _ _ hfunctionCount).2,
          hwordsRest, hfunctionsRest, hend, toBytes, hwordsLen, hfunctionsLen, UInt32.ofNat_toNat,
          UInt32.ofNat_toNat]
        simp only [List.append_assoc, List.append_nil]
    · cases h

/-- Bytes are read as an image exactly when they are its byte form, and the image
is one whose counts and name lengths fit 32 bits. So such an image is read back
from its bytes, and no other bytes are read as it. -/
theorem ofBytes_eq_ok_iff {bytes : Bytes} {image : Image} :
    ofBytes bytes = .ok image ↔ image.Writable ∧ image.toBytes = bytes := by
  constructor
  · exact toBytes_of_ofBytes
  · rintro ⟨h, rfl⟩
    exact ofBytes_toBytes image h.words h.functions h.names

end SensorScript.Image
