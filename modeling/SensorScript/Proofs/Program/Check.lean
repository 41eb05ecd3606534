/-
SensorScript.Proofs.Program.Check — what a checked program can still fail on.

A program that is parsed and linked has instructions that fit their opcodes,
registers that every field can hold and references that are all resolved: the
operands are checked when they are read (§1), and linking keeps what was
checked and reaches every instruction (§2). What is left to fail on are the
numbers of `Operation.Overflows` (§3).
-/
import SensorScript.Proofs.Forall2
import SensorScript.Proofs.MachineWord.Overflow
import SensorScript.Proofs.MachineWord.Sequence
import SensorScript.Proofs.Program.Parse

namespace SensorScript

/-! ## §1 Operands that are read -/

namespace Operand

variable {limits : Limits}

theorem readRegister_lt {token digits : Text} {r : UInt8}
    (h : readRegister limits token digits = .ok r) : r.toNat < limits.maxRegisters := by
  unfold readRegister at h
  split at h
  · cases h
  next index _ =>
    split at h
    · cases h
    next hlt =>
      cases h
      rw [UInt8.toNat_ofNat']
      exact Nat.lt_of_le_of_lt (Nat.mod_le _ _) (Nat.lt_of_not_le hlt)

theorem readMemory_registersBelow {token rest : Text} {m : Memory}
    (h : readMemory limits token rest = .ok m) :
    (Operand.memory m).RegistersBelow limits.maxRegisters := by
  unfold readMemory at h
  split at h
  · cases h
  · split at h
    · split at h
      next hoffset =>
        cases h
        unfold readOffset? at hoffset
        split at hoffset
        · obtain ⟨r, hr, rfl⟩ := Option.map_eq_some_iff.mp hoffset
          exact readRegister_lt (toOption_eq_some_iff.mp hr)
        · obtain ⟨v, _, rfl⟩ := Option.map_eq_some_iff.mp hoffset
          trivial
        · cases hoffset
      · cases h
    · cases h

/-- The registers of an operand that is read are those there are. -/
theorem read_registersBelow {context : Context} {word : Text} {o : Operand}
    (h : read limits context word = .ok o) : o.RegistersBelow limits.maxRegisters := by
  unfold read at h
  split at h
  · cases h
  · split at h
    · obtain ⟨r, hr, rfl⟩ := map_eq_ok_iff.mp h
      exact readRegister_lt hr
    · obtain ⟨v, _, rfl⟩ := map_eq_ok_iff.mp h
      trivial
    · obtain ⟨name, _, rfl⟩ := map_eq_ok_iff.mp h
      cases context with
      | plain => trivial
      | call => trivial
    · obtain ⟨m, hm, rfl⟩ := map_eq_ok_iff.mp h
      exact readMemory_registersBelow hm
    · cases h

end Operand

namespace Draft

/-- Every instruction of the draft was read from words. -/
def Read (d : Draft) : Prop :=
  ∀ x ∈ d.instructions.items,
    ∃ arguments, readOperation d.limits x.operation.opcode arguments = .ok x.operation

theorem Step.read {d d' : Draft} {line : Nat} {s : Statement} (h : Step d line s d')
    (hd : d.Read) : d'.Read := by
  cases h with
  | addInstruction _ hread hpush =>
    intro x hx
    rcases (Table.mem_push_iff hpush).mp hx with hx | rfl
    · exact hd x hx
    · obtain ⟨_, _, operands, rfl, _⟩ := readOperation_eq_ok_iff.mp hread
      exact ⟨_, hread⟩
  | _ => exact hd

theorem readSource_read (limits : Limits) (source : Bytes) :
    ((Draft.empty limits).readSource source).1.Read := by
  rw [readSource_fst]
  exact readLines_rec Step.read _ 1 nofun

end Draft

/-! ## §2 Operands that are linked -/

namespace Link.Resolves

variable {symbols : SymbolTable} {owner : Nat} {o o' : Operand}

theorem kind_eq (h : Resolves symbols owner o o') : o'.kind = o.kind := by
  cases h <;> rfl

theorem registersBelow (h : Resolves symbols owner o o') {bound : Nat}
    (ho : o.RegistersBelow bound) : o'.RegistersBelow bound := by
  cases h with
  | value _ => exact ho
  | label _ => trivial
  | function _ => trivial

theorem isResolved (h : Resolves symbols owner o o') : o'.IsResolved := by
  intro s hs
  cases h with
  | value hnone => rw [hnone] at hs; cases hs
  | label _ => cases hs; exact ⟨_, rfl⟩
  | function _ => cases hs; exact ⟨_, rfl⟩

end Link.Resolves

/-- The operands fit the opcode, every field can hold their registers, and the
references among them are resolved. -/
structure Operation.Checked (x : Operation) : Prop where
  fits : Fits x.opcode.shape x.operands
  registers : ∀ o ∈ x.operands, o.RegistersBelow Limits.encodableRegisters
  resolved : ∀ o ∈ x.operands, o.IsResolved

/-- An instruction that was read and then linked is checked. -/
theorem Link.Links.checked {symbols : SymbolTable} {limits : Limits} {x y : Instruction}
    (h : Link.Links symbols x y) (hlimits : limits.maxRegisters ≤ Limits.encodableRegisters)
    {arguments : List Text}
    (hread : Draft.readOperation limits x.operation.opcode arguments = .ok x.operation) :
    y.operation.Checked := by
  obtain ⟨_, _, operands, hx, hread, hfits⟩ := Draft.readOperation_eq_ok_iff.mp hread
  have hlinks := h.operands
  rw [hx] at hlinks
  refine ⟨?_, fun o' ho' => ?_, fun o' ho' => ?_⟩
  · rw [h.opcode_eq]
    exact (checkShape_eq_ok_iff.mp hfits).of_kinds (hlinks.imp fun _ _ ho => ho.kind_eq)
  · obtain ⟨o, ho, hresolves⟩ := exists_mem_of_forall₂ hlinks ho'
    obtain ⟨word, _, hword⟩ := exists_mem_of_forall₂ hread ho
    exact hresolves.registersBelow ((Operand.read_registersBelow hword).mono hlimits)
  · obtain ⟨o, _, hresolves⟩ := exists_mem_of_forall₂ hlinks ho'
    exact hresolves.isResolved

/-! ## §3 Programs -/

namespace Program

variable {limits : Limits} {source : Bytes} {p : Program}

/-- A checked program is what reading and linking an empty draft gives. -/
theorem check_eq_ok_iff :
    check source limits = .ok p ↔ limits.Valid ∧
      ∃ d d' n, (Draft.empty limits).readSource source = (d, .ok ()) ∧ d.link = (d', .ok n) ∧
        p = { draft := d', stage := .linked } := by
  constructor
  · intro h
    obtain ⟨p₀, h₀, h⟩ := bind_eq_ok_iff.mp h
    split at h
    · cases h
    next hparse =>
      obtain ⟨d, hd, rfl⟩ := (parse_eq_ok_iff h₀).mp hparse
      split at h
      · cases h
      next hlink =>
        cases h
        simp only [link, inStage, Call.stage, if_true] at hlink
        split at hlink
        next heq => cases hlink; exact ⟨(new_eq_ok_iff.mp h₀).1, d, _, _, hd, heq, rfl⟩
        next heq => cases hlink
  · rintro ⟨hv, d, d', n, hd, hlink, rfl⟩
    have h₀ : new limits = .ok { draft := .empty limits } := new_eq_ok_iff.mpr ⟨hv, rfl⟩
    refine bind_eq_ok_iff.mpr ⟨_, h₀, ?_⟩
    rw [(parse_eq_ok_iff h₀).mpr ⟨d, hd, rfl⟩]
    simp only [link, inStage, Call.stage, if_true, hlink]

/-- Every instruction of a checked program is checked. -/
theorem checked_of_check (h : check source limits = .ok p) :
    ∀ x ∈ p.draft.instructions.items, x.operation.Checked := by
  obtain ⟨hv, d, d', n, hd, hlink, rfl⟩ := check_eq_ok_iff.mp h
  have hempty := Draft.Sound.empty limits
  have hsound := hempty.readSource hd
  have hread : d.Read := by
    have hread := Draft.readSource_read limits source
    rwa [hd] at hread
  obtain ⟨_, hlinks⟩ := hsound.links (hempty.current_of_readSource hd) hlink
  intro y hy
  obtain ⟨x, hx, hxy⟩ := exists_mem_of_forall₂ hlinks hy
  obtain ⟨arguments, hx⟩ := hread x hx
  exact hxy.checked hv.registers (hsound.limits_eq ▸ hx)

theorem encode_of_linked (h : p.stage = .linked) :
    p.encode.2 = ((encodeAll p.draft.instructions.items).map
      fun words => .ofWords words p.draft.symbols.functions.items).mapError .encode := by
  simp only [encode, inStage, Call.stage, h, if_true]
  cases encodeAll p.draft.instructions.items with
  | ok words => rfl
  | error e => rfl

/-- A checked program is encoded exactly when no number of its instructions
overflows, and otherwise one that does is the error. -/
theorem encode_of_check (h : check source limits = .ok p) :
    ((∃ image, p.encode.2 = .ok image) ↔
      ∀ x ∈ p.draft.instructions.items, ∀ field n, ¬ x.operation.Overflows field n) ∧
    ∀ error, p.encode.2 = .error error →
      ∃ i x field n, p.draft.instructions.get? i = some x ∧ x.operation.Overflows field n ∧
        error = .encode ⟨i, .fieldOverflow field n⟩ := by
  have hchecked := checked_of_check h
  have hencode {x : Instruction} (hx : x ∈ p.draft.instructions.items) :=
    encode_of_fits (hchecked x hx).fits (hchecked x hx).registers (hchecked x hx).resolved
  have hstage : p.stage = .linked := by
    obtain ⟨_, _, _, _, _, _, rfl⟩ := check_eq_ok_iff.mp h
    rfl
  rw [encode_of_linked hstage]
  cases hall : encodeAll p.draft.instructions.items with
  | ok words =>
    constructor
    · refine iff_of_true ⟨_, rfl⟩ fun x hx field n hover => ?_
      have hwords := encodeFrom_eq_ok_iff.mp hall
      obtain ⟨w, _, hw⟩ := exists_mem_of_forall₂ hwords.flip (List.mem_map_of_mem hx)
      have hw : x.operation.encode = .ok w := hw
      rcases hencode hx with ⟨_, hnone⟩ | ⟨_, _, herror, _⟩
      · exact hnone field n hover
      · rw [hw] at herror; cases herror
    · intro error herror
      cases herror
  | error e =>
    obtain ⟨index, fault⟩ := e
    obtain ⟨i, o, hi, hindex, ho⟩ := encodeFrom_eq_error hall
    rw [List.getElem?_map] at hi
    obtain ⟨x, hx, rfl⟩ := Option.map_eq_some_iff.mp hi
    have hmem := List.mem_of_getElem? hx
    rcases hencode hmem with ⟨⟨w, hw⟩, _⟩ | ⟨field, n, hw, hover⟩
    · rw [ho] at hw; cases hw
    · constructor
      · refine iff_of_false ?_ fun hnone => hnone x hmem field n hover
        rintro ⟨image, himage⟩
        cases himage
      · intro error herror
        cases herror
        cases ho.symm.trans hw
        cases hindex.trans (Nat.zero_add i)
        exact ⟨_, x, field, n, hx, hover, rfl⟩

/-- An offset of 1024 is checked, and then it is too large to be encoded. -/
theorem overflow_of_large_offset :
    let source := Utf8.encode ".function f\nMOV M0[$1024] R0\n.endfunction".toList
    ∃ p, check source {} = .ok p ∧ ∃ i x field n, p.draft.instructions.get? i = some x ∧
      x.operation.Overflows field n ∧
      p.encode.2 = .error (.encode ⟨i, .fieldOverflow field n⟩) := by
  intro source
  have hfails : ((check source {}).toOption.map fun p => p.encode.2.toBool) = some false := by
    decide +kernel
  obtain ⟨p, hp, hfails⟩ := Option.map_eq_some_iff.mp hfails
  have h := toOption_eq_some_iff.mp hp
  cases herror : p.encode.2 with
  | ok image => rw [herror] at hfails; cases hfails
  | error error =>
    obtain ⟨i, x, field, n, hx, hover, rfl⟩ := (encode_of_check h).2 error herror
    exact ⟨p, h, i, x, field, n, hx, hover, herror⟩

end Program

end SensorScript
