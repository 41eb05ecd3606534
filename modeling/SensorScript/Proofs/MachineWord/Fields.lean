/-
SensorScript.Proofs.MachineWord.Fields — fields that share no bit keep their
values when they are packed.

  §1 one field of a number, and how adding another field's value changes it;
  §2 `pack`: when it succeeds, what it refuses, and what every field of the
     packed number holds.

Packing adds. A sum could carry from one field into the next, so the lemmas
of §1 ask that the field written to was zero before: then nothing carries.
-/
import Mathlib.Algebra.Group.Nat.Defs
import SensorScript.MachineWord.Encode

namespace SensorScript

namespace Field

/-! ## §1 One field -/

/-- The fields share no bit. -/
def Disjoint (f g : Field) : Prop := f.offset + f.width ≤ g.offset ∨ g.offset + g.width ≤ f.offset

instance (f g : Field) : Decidable (f.Disjoint g) := inferInstanceAs (Decidable (_ ∨ _))

theorem Disjoint.symm {f g : Field} (h : f.Disjoint g) : g.Disjoint f := Or.symm h

/-- The field's value in a number. -/
def bits (f : Field) (n : Nat) : Nat := n >>> f.offset % (1 <<< f.width)

theorem bits_eq (f : Field) (n : Nat) : f.bits n = n / 2 ^ f.offset % 2 ^ f.width := by
  rw [bits, Nat.shiftRight_eq_div_pow, Nat.shiftLeft_eq, Nat.one_mul]

theorem place_eq (f : Field) (v : Nat) : f.place v = 2 ^ f.offset * v := by
  rw [place, Nat.shiftLeft_eq, Nat.mul_comm]

theorem holds_iff (f : Field) (v : Nat) : f.Holds v ↔ v < 2 ^ f.width := by
  rw [Holds, Nat.shiftLeft_eq, Nat.one_mul]

@[simp] theorem bits_zero (f : Field) : f.bits 0 = 0 := by
  rw [bits_eq, Nat.zero_div, Nat.zero_mod]

/-- A first part keeps every field within its 32 bits. -/
theorem get_ofNat {f : Field} (h : f.offset + f.width ≤ 32) (n : Nat) :
    f.get (UInt32.ofNat n) = f.bits n := by
  rw [bits_eq, get, UInt32.toNat_ofNat', Nat.shiftRight_eq_div_pow, Nat.shiftLeft_eq, Nat.one_mul]
  have hsplit : 2 ^ 32 = 2 ^ f.offset * 2 ^ (32 - f.offset) := by
    rw [← Nat.pow_add]
    congr 1
    omega
  rw [hsplit, Nat.mod_mul_right_div_self]
  exact Nat.mod_mod_of_dvd _ (Nat.pow_dvd_pow 2 (by omega))

theorem bits_place_add {f : Field} {v m : Nat} (hv : f.Holds v) (hm : f.bits m = 0) :
    f.bits (f.place v + m) = v := by
  rw [bits_eq] at hm ⊢
  rw [place_eq, Nat.mul_add_div (Nat.two_pow_pos _), Nat.add_mod, hm, Nat.add_zero, Nat.mod_mod]
  exact Nat.mod_eq_of_lt ((holds_iff f v).mp hv)

theorem bits_place_add_of_disjoint {f g : Field} {v m : Nat} (h : f.Disjoint g) (hv : g.Holds v)
    (hm : g.bits m = 0) : f.bits (g.place v + m) = f.bits m := by
  rw [bits_eq] at hm
  rw [bits_eq, bits_eq, place_eq]
  rcases h with h | h
  · -- `g` lies above `f`: its value is a multiple of all that `f` can hold
    have hsplit : 2 ^ g.offset = 2 ^ f.offset * (2 ^ f.width * 2 ^ (g.offset - f.offset - f.width)) := by
      rw [← Nat.pow_add, ← Nat.pow_add]
      congr 1
      omega
    rw [hsplit, Nat.mul_assoc, Nat.mul_add_div (Nat.two_pow_pos _), Nat.mul_assoc,
      Nat.mul_add_mod]
  · -- `g` lies below `f`: nothing carries out of it
    have hsplit : 2 ^ f.offset = 2 ^ g.offset * (2 ^ g.width * 2 ^ (f.offset - g.offset - g.width)) := by
      rw [← Nat.pow_add, ← Nat.pow_add]
      congr 1
      omega
    have hq := Nat.div_add_mod (m / 2 ^ g.offset) (2 ^ g.width)
    rw [hm, Nat.add_zero] at hq
    rw [hsplit, ← Nat.div_div_eq_div_mul, ← Nat.div_div_eq_div_mul,
      Nat.mul_add_div (Nat.two_pow_pos _), ← hq, ← Nat.div_div_eq_div_mul,
      ← Nat.div_div_eq_div_mul, Nat.add_comm v, Nat.mul_add_div (Nat.two_pow_pos _),
      Nat.div_eq_of_lt ((holds_iff g v).mp hv), Nat.add_zero]

end Field

/-! ## §2 Packing -/

theorem pack_cons_eq_ok {f : Field} {v n : Nat} {rest : List (Field × Nat)}
    (h : pack ((f, v) :: rest) = .ok n) :
    f.Holds v ∧ ∃ m, pack rest = .ok m ∧ n = f.place v + m := by
  unfold pack at h
  split at h
  next hv =>
    cases hr : pack rest with
    | error e => rw [hr] at h; cases h
    | ok m => rw [hr] at h; cases h; exact ⟨hv, m, rfl, rfl⟩
  · cases h

/-- Packing succeeds exactly when every field can hold its value. -/
theorem exists_pack_iff {fields : List (Field × Nat)} :
    (∃ n, pack fields = .ok n) ↔ ∀ p ∈ fields, p.1.Holds p.2 := by
  induction fields with
  | nil => simp [pack]
  | cons p rest ih =>
    obtain ⟨f, v⟩ := p
    constructor
    · rintro ⟨n, h⟩
      obtain ⟨hv, m, hm, _⟩ := pack_cons_eq_ok h
      exact List.forall_mem_cons.mpr ⟨hv, ih.mp ⟨m, hm⟩⟩
    · intro h
      obtain ⟨hv, hrest⟩ := List.forall_mem_cons.mp h
      obtain ⟨m, hm⟩ := ih.mpr hrest
      exact ⟨f.place v + m, by rw [pack, if_pos hv, hm]; rfl⟩

/-- What packing refuses is the value of one of the fields. -/
theorem pack_eq_error {fields : List (Field × Nat)} {e : EncodeFault}
    (h : pack fields = .error e) :
    ∃ f v, (f, v) ∈ fields ∧ ¬ f.Holds v ∧ e = .fieldOverflow f v := by
  induction fields with
  | nil => cases h
  | cons p rest ih =>
    obtain ⟨f, v⟩ := p
    unfold pack at h
    split at h
    · cases hr : pack rest with
      | ok m => rw [hr] at h; cases h
      | error e' =>
        rw [hr] at h
        cases h
        obtain ⟨g, u, hm, hu, he⟩ := ih hr
        exact ⟨g, u, List.mem_cons_of_mem _ hm, hu, he⟩
    next hv => cases h; exact ⟨f, v, List.mem_cons_self, hv, rfl⟩

/-- A field that shares no bit with the packed ones is zero. -/
theorem bits_pack_of_disjoint {fields : List (Field × Nat)} {n : Nat} (h : pack fields = .ok n)
    (hd : fields.Pairwise fun p q => p.1.Disjoint q.1) {f : Field}
    (hf : ∀ p ∈ fields, f.Disjoint p.1) : f.bits n = 0 := by
  induction fields generalizing n f with
  | nil => cases h; exact f.bits_zero
  | cons p rest ih =>
    obtain ⟨g, u⟩ := p
    obtain ⟨hu, m, hm, rfl⟩ := pack_cons_eq_ok h
    obtain ⟨hg, hrest⟩ := List.pairwise_cons.mp hd
    obtain ⟨hfg, hf⟩ := List.forall_mem_cons.mp hf
    rw [Field.bits_place_add_of_disjoint hfg hu (ih hm hrest hg)]
    exact ih hm hrest hf

/-- Every packed field holds its value. -/
theorem bits_pack {fields : List (Field × Nat)} {n : Nat} (h : pack fields = .ok n)
    (hd : fields.Pairwise fun p q => p.1.Disjoint q.1) {f : Field} {v : Nat}
    (hm : (f, v) ∈ fields) : f.bits n = v := by
  induction fields generalizing n with
  | nil => cases hm
  | cons p rest ih =>
    obtain ⟨g, u⟩ := p
    obtain ⟨hu, m, hrest, rfl⟩ := pack_cons_eq_ok h
    obtain ⟨hg, hd⟩ := List.pairwise_cons.mp hd
    have hzero : g.bits m = 0 := bits_pack_of_disjoint hrest hd hg
    rcases List.mem_cons.mp hm with heq | hm
    · cases heq
      exact Field.bits_place_add hu hzero
    · rw [Field.bits_place_add_of_disjoint (hg _ hm).symm hu hzero]
      exact ih hrest hd hm

end SensorScript
