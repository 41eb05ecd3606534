/-
SensorScript.Proofs.CommandLine.Render — every format of a build carries the whole
image.

A file has the fields of the image in it, or two digits for each of their bytes, or a
text that is read as a value with all parts of the image (`Rendered`). So no two
images that can be written are rendered alike, whatever stands in the names of
functions: neither a quote nor a bracket in a name can be taken for one around it.
-/
import SensorScript.CommandLine.Commands
import SensorScript.Proofs.Image.Damage
import SensorScript.Proofs.Image.Json

namespace SensorScript.Command

/-! ## §1 Hexadecimal digits -/

/-- The digits of bytes, two for each. -/
def hexDigits (bytes : Bytes) : Text := bytes.flatMap fun b => Numeral.hexPadded 2 b.toNat

/-- Two lower-case digits of a byte. -/
def pair (b : UInt8) : Text := [(b.toNat / 16).digitChar, (b.toNat % 16).digitChar]

theorem hexPadded_byte (b : UInt8) : Numeral.hexPadded 2 b.toNat = pair b := by
  have h : ∀ n < 0x100, Numeral.hexPadded 2 n = [(n / 16).digitChar, (n % 16).digitChar] := by
    decide +kernel
  exact h b.toNat b.toNat_lt

theorem length_hexPadded_byte (b : UInt8) : (Numeral.hexPadded 2 b.toNat).length = 2 := by
  rw [hexPadded_byte]
  rfl

theorem length_hexDigits (bytes : Bytes) : (hexDigits bytes).length = 2 * bytes.length := by
  induction bytes with
  | nil => rfl
  | cons b bytes ih =>
    rw [hexDigits, List.flatMap_cons, List.length_append, length_hexPadded_byte, ← hexDigits, ih,
      List.length_cons]
    omega

/-- Digits tell the bytes, as every byte takes as many. -/
theorem eq_of_hexDigits_eq {bytes bytes' : Bytes} (h : hexDigits bytes = hexDigits bytes') :
    bytes = bytes' := by
  induction bytes generalizing bytes' with
  | nil =>
    have hlength := congrArg List.length h
    rw [length_hexDigits, length_hexDigits, List.length_nil] at hlength
    exact (List.eq_nil_of_length_eq_zero (by omega)).symm
  | cons b bytes ih =>
    cases bytes' with
    | nil =>
      have hlength := congrArg List.length h
      rw [length_hexDigits, length_hexDigits, List.length_cons, List.length_nil] at hlength
      omega
    | cons b' bytes' =>
      obtain ⟨hb, hbytes⟩ :=
        List.append_inj h (by rw [length_hexPadded_byte, length_hexPadded_byte])
      rw [UInt8.toNat_inj.mp (Numeral.eq_of_hexPadded_eq hb), ih hbytes]

/-! ## §2 Images -/

variable {image other : Image}

theorem eq_of_toBytes_eq (h : image.Writable) (h' : other.Writable)
    (heq : image.toBytes = other.toBytes) : image = other := by
  have hread := Image.ofBytes_toBytes image h.words h.functions h.names
  rw [heq, Image.ofBytes_toBytes other h'.words h'.functions h'.names] at hread
  exact (Except.ok.inj hread).symm

/-- Two images whose counts and name lengths fit 32 bits are rendered alike in a format
only if they are one image. -/
theorem render_eq_iff (format : Format) (h : image.Writable) (h' : other.Writable) :
    render image format = render other format ↔ image = other := by
  constructor
  · intro heq
    cases format with
    | bin => exact eq_of_toBytes_eq h h' heq
    | hex =>
      have hdigits : hexDigits image.toBytes = hexDigits other.toBytes :=
        List.append_cancel_right (Utf8.eq_of_encode_eq heq)
      exact eq_of_toBytes_eq h h' (eq_of_hexDigits_eq hdigits)
    | json => exact Image.toJson_injective (Utf8.eq_of_encode_eq heq)
  · rintro rfl
    rfl

/-- Two functions, and one whose name reads as the JSON form of both. -/
theorem imitated_image_told_apart :
    let two : Image := ⟨[], [⟨['a'], 0, 0⟩, ⟨['b'], 0, 0⟩]⟩
    let one : Image := ⟨[],
      [⟨"a\",\n      \"start\": 0,\n      \"end\": 0\n    \x7d,\n    \x7b\n      \"name\": \"b".toList, 0, 0⟩]⟩
    two.Writable ∧ one.Writable ∧ render two .json ≠ render one .json := by
  intro two one
  have htwo : two.Writable := ⟨by decide, by decide, by decide⟩
  have hone : one.Writable := ⟨by decide, by decide, by decide⟩
  exact ⟨htwo, hone, fun h => absurd ((render_eq_iff .json htwo hone).mp h) (by decide)⟩

end SensorScript.Command
