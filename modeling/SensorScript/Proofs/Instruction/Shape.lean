/-
SensorScript.Proofs.Instruction.Shape — operand lists that fit an opcode.

`checkShape` compares the number of operands and then walks the signature.
`Fits` lists the operand lists it lets through, one case for every shape, so
that what is proved of checked instructions is proved by cases on the shape
and not on the signature.
-/
import SensorScript.Instruction
import SensorScript.Proofs.Forall2

namespace SensorScript

/-- Operand lists of a shape. -/
inductive Fits : Shape → List Operand → Prop
  | alu3 {d s a} (ha : a.isRegOrImm = true) : Fits .alu3 [.register d, .register s, a]
  | alu2 {d a} (ha : a.isRegOrImm = true) : Fits .alu2 [.register d, a]
  | mov {d s} (hd : d.isRegOrMem = true) (hs : s.isValue = true) : Fits .mov [d, s]
  | jump {c l} (hc : c.isRegOrImm = true) : Fits .jump [c, .label l]
  | call {f} : Fits .call [.function f]
  | wi2c {a v l} (ha : a.isRegOrImm = true) (hv : v.isRegOrImm = true)
      (hl : l.isRegOrImm = true) : Fits .wi2c [a, v, l]
  | ri2c {d a l} (ha : a.isRegOrImm = true) (hl : l.isRegOrImm = true) :
      Fits .ri2c [.register d, a, l]

/-! ## §1 Signatures -/

theorem firstMismatch_eq_none_iff (position : Nat) {accepts : List Accept} {os : List Operand}
    (hlen : accepts.length = os.length) :
    firstMismatch position accepts os = none ↔
      List.Forall₂ (fun a o => a.accepts o = true) accepts os := by
  induction accepts generalizing position os with
  | nil =>
    cases os with
    | nil => simp [firstMismatch]
    | cons o os => simp at hlen
  | cons a accepts ih =>
    cases os with
    | nil => simp at hlen
    | cons o os =>
      simp only [List.length_cons, Nat.add_right_cancel_iff] at hlen
      rw [firstMismatch, List.forall₂_cons]
      by_cases h : a.accepts o = true
      · rw [if_pos h, ih _ hlen]
        simp [h]
      · rw [if_neg h]
        simp [h]

theorem checkShape_eq_ok_iff_forall₂ {op : Opcode} {os : List Operand} :
    checkShape op os = .ok () ↔
      List.Forall₂ (fun a o => a.accepts o = true) op.shape.signature os := by
  unfold checkShape
  by_cases hlen : op.arity = os.length
  · rw [if_neg (not_not_intro hlen), ← firstMismatch_eq_none_iff 0 hlen]
    split
    next m hm => simp [hm]
    next hm => simp [hm]
  · rw [if_pos hlen]
    constructor
    · intro h; cases h
    · intro h; exact absurd h.length_eq hlen

/-! ## §2 Shapes -/

theorem Accept.accepts_register {o : Operand} :
    Accept.register.accepts o = true ↔ ∃ r, o = .register r := by
  cases o <;> simp [accepts, Operand.isRegister]

theorem Accept.accepts_label {o : Operand} :
    Accept.label.accepts o = true ↔ ∃ s, o = .label s := by
  cases o <;> simp [accepts, Operand.kind]

theorem Accept.accepts_function {o : Operand} :
    Accept.function.accepts o = true ↔ ∃ s, o = .function s := by
  cases o <;> simp [accepts, Operand.kind]

theorem forall₂_signature_iff {s : Shape} {os : List Operand} :
    List.Forall₂ (fun a o => a.accepts o = true) s.signature os ↔ Fits s os := by
  constructor
  · intro h
    cases s with
    | alu3 =>
      obtain _ | ⟨hd, _ | ⟨hs, _ | ⟨ha, ⟨⟩⟩⟩⟩ := h
      obtain ⟨d, rfl⟩ := Accept.accepts_register.mp hd
      obtain ⟨s, rfl⟩ := Accept.accepts_register.mp hs
      exact .alu3 ha
    | alu2 =>
      obtain _ | ⟨hd, _ | ⟨ha, ⟨⟩⟩⟩ := h
      obtain ⟨d, rfl⟩ := Accept.accepts_register.mp hd
      exact .alu2 ha
    | mov =>
      obtain _ | ⟨hd, _ | ⟨hs, ⟨⟩⟩⟩ := h
      exact .mov hd hs
    | jump =>
      obtain _ | ⟨hc, _ | ⟨hl, ⟨⟩⟩⟩ := h
      obtain ⟨l, rfl⟩ := Accept.accepts_label.mp hl
      exact .jump hc
    | call =>
      obtain _ | ⟨hf, ⟨⟩⟩ := h
      obtain ⟨f, rfl⟩ := Accept.accepts_function.mp hf
      exact .call
    | wi2c =>
      obtain _ | ⟨ha, _ | ⟨hv, _ | ⟨hl, ⟨⟩⟩⟩⟩ := h
      exact .wi2c ha hv hl
    | ri2c =>
      obtain _ | ⟨hd, _ | ⟨ha, _ | ⟨hl, ⟨⟩⟩⟩⟩ := h
      obtain ⟨d, rfl⟩ := Accept.accepts_register.mp hd
      exact .ri2c ha hl
  · intro h
    cases h with
    | alu3 ha => exact .cons rfl (.cons rfl (.cons ha .nil))
    | alu2 ha => exact .cons rfl (.cons ha .nil)
    | mov hd hs => exact .cons hd (.cons hs .nil)
    | jump hc => exact .cons hc (.cons rfl .nil)
    | call => exact .cons rfl .nil
    | wi2c ha hv hl => exact .cons ha (.cons hv (.cons hl .nil))
    | ri2c ha hl => exact .cons rfl (.cons ha (.cons hl .nil))

theorem checkShape_eq_ok_iff {op : Opcode} {os : List Operand} :
    checkShape op os = .ok () ↔ Fits op.shape os :=
  checkShape_eq_ok_iff_forall₂.trans forall₂_signature_iff

/-! ## §3 Kinds -/

theorem isValue_of_isRegOrImm {o : Operand} (h : o.isRegOrImm = true) : o.isValue = true := by
  cases o <;> first | rfl | cases h

theorem isValue_of_isRegOrMem {o : Operand} (h : o.isRegOrMem = true) : o.isValue = true := by
  cases o <;> first | rfl | cases h

/-- Operands are values, but for the target of a jump and that of a call. -/
theorem Fits.forall_mem {P : Operand → Prop} {s : Shape} {os : List Operand} (h : Fits s os)
    (value : ∀ o, o.isValue = true → P o) (label : s = .jump → ∀ l, P (.label l))
    (function : s = .call → ∀ f, P (.function f)) : ∀ o ∈ os, P o := by
  have hregister (r : UInt8) : P (.register r) := value _ rfl
  have hscalar {o : Operand} (ho : o.isRegOrImm = true) : P o := value o (isValue_of_isRegOrImm ho)
  cases h with
  | alu3 ha => simp [hregister, hscalar ha]
  | alu2 ha => simp [hregister, hscalar ha]
  | mov hd hs => simp [value _ (isValue_of_isRegOrMem hd), value _ hs]
  | jump hc => simp [hscalar hc, label rfl]
  | call => simp [function rfl]
  | wi2c ha hv hl => simp [hscalar ha, hscalar hv, hscalar hl]
  | ri2c ha hl => simp [hregister, hscalar ha, hscalar hl]

/-- A signature looks at the kind of an operand and at nothing else of it. -/
theorem Accept.accepts_of_kind_eq (a : Accept) {o o' : Operand} (h : o'.kind = o.kind) :
    a.accepts o' = a.accepts o := by
  cases a <;> cases o <;> cases o' <;> first | rfl | cases h

/-- Operands of the same kinds fit the same shapes. -/
theorem Fits.of_kinds {s : Shape} {os os' : List Operand} (h : Fits s os)
    (hkinds : List.Forall₂ (fun o o' => o'.kind = o.kind) os os') : Fits s os' := by
  refine forall₂_signature_iff.mp ((forall₂_comp (forall₂_signature_iff.mpr h) hkinds).imp ?_)
  intro a o' ⟨o, ha, ho⟩
  rw [a.accepts_of_kind_eq ho, ha]

end SensorScript
