/-
SensorScript.Proofs.Text.Slice — ASCII seen byte by byte.

An ASCII character is one byte, and no byte of another character is below 0x80.
So a reader that looks at bytes finds ASCII characters where they are and
nowhere else, and it may cut a text behind them.
-/
import SensorScript.Proofs.Text.Utf8
import SensorScript.Text.Slice

namespace SensorScript.Utf8

variable {c : Char} {t : Text} {position : Nat}

/-! ## §1 Bytes -/

theorem toNat_asciiByte (h : c.toNat < 0x80) : (asciiByte c).toNat = c.toNat :=
  UInt8.toNat_ofNat_of_lt' (Nat.lt_trans h (by decide))

theorem encodeChar_ascii (h : c.toNat < 0x80) : encodeChar c = [asciiByte c] := by
  simp [encodeChar, h, asciiByte]

/-- The byte of an ASCII character is in the form of no other character. -/
theorem asciiByte_mem_encodeChar_iff {s : Char} (hs : s.toNat < 0x80) :
    asciiByte s ∈ encodeChar c ↔ c = s := by
  have hbyte : (asciiByte s).toNat < 0x80 := by rwa [toNat_asciiByte hs]
  rw [mem_encodeChar_iff hbyte, toNat_asciiByte hs, Char.toNat_inj]

/-- There is a first byte, and it tells whether the first character is a given ASCII one. -/
theorem exists_byte?_zero (c : Char) (t : Text) :
    ∃ b, byte? (c :: t) 0 = some b ∧ ∀ s : Char, s.toNat < 0x80 → (b = asciiByte s ↔ c = s) := by
  obtain ⟨b, bs, hbs⟩ := List.exists_cons_of_ne_nil (encodeChar_ne_nil c)
  refine ⟨b, by simp [byte?, hbs], fun s hs => ?_⟩
  constructor
  · rintro rfl
    rw [← asciiByte_mem_encodeChar_iff hs, hbs]
    exact List.mem_cons_self
  · rintro rfl
    rw [encodeChar_ascii hs] at hbs
    exact (List.head_eq_of_cons_eq hbs).symm

theorem byte?_cons_ascii (h : c.toNat < 0x80) (t : Text) (position : Nat) :
    byte? (c :: t) (position + 1) = byte? t position := by
  simp [byte?, encodeChar_ascii h]

/-- A class of ASCII characters can be looked for byte by byte. -/
theorem all_encode {p : UInt8 → Bool} {q : Char → Bool} (hp : ∀ b, p b = true → b.toNat < 0x80)
    (hq : ∀ c, q c = true → c.toNat < 0x80) (h : ∀ c, c.toNat < 0x80 → p (asciiByte c) = q c)
    (t : Text) : (encode t).all p = t.all q := by
  have hchar (c : Char) : (encodeChar c).all p = q c := by
    by_cases hc : c.toNat < 0x80
    · simp [encodeChar_ascii hc, h c hc]
    · -- Neither the character nor any of its bytes is in the class.
      have hqc : q c = false := Bool.eq_false_iff.mpr fun h => hc (hq c h)
      obtain ⟨b, hb⟩ := List.exists_mem_of_ne_nil _ (encodeChar_ne_nil c)
      have hpb : p b = false := Bool.eq_false_iff.mpr fun h =>
        hc ((mem_encodeChar_iff (hp b h)).mp hb ▸ hp b h)
      rw [hqc, List.all_eq_false]
      exact ⟨b, hb, Bool.not_eq_true _ ▸ hpb⟩
  induction t with
  | nil => rfl
  | cons c t ih => rw [encode_cons, List.all_append, hchar, ih, List.all_cons]

/-! ## §2 Slices -/

@[simp] theorem sliceFrom?_zero (t : Text) : sliceFrom? t 0 = some t := by
  cases t <;> rfl

theorem sliceFrom?_cons_ascii (h : c.toNat < 0x80) (t : Text) (position : Nat) :
    sliceFrom? (c :: t) (position + 1) = sliceFrom? t position := by
  simp [sliceFrom?, encodeChar_ascii h]

end SensorScript.Utf8
