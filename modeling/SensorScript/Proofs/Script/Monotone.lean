/-
SensorScript.Proofs.Script.Monotone — higher limits accept every script that
lower ones do.

A limit is only ever compared with what it bounds, and what is read does not
depend on it. So what was read under some limits passes the same guards under
higher ones and is read as the same.

  §1 limits, one below the other;
  §2 lines and words;
  §3 operands;
  §4 scripts.
-/
import SensorScript.Proofs.Script.Reading

namespace SensorScript

/-! ## §1 Limits -/

namespace Limits

/-- Every limit is at most what it is in the other. -/
def Below (l l' : Limits) : Prop := ∀ e ∈ entries, e.get l ≤ e.get l'

instance (l l' : Limits) : Decidable (l.Below l') :=
  inferInstanceAs (Decidable (∀ e ∈ entries, e.get l ≤ e.get l'))

/-- The limits that bound the text of a script. -/
structure Below.OfText (l l' : Limits) : Prop where
  lineLen : l.maxLineLen ≤ l'.maxLineLen
  wordsPerLine : l.maxWordsPerLine ≤ l'.maxWordsPerLine
  wordLen : l.maxWordLen ≤ l'.maxWordLen
  registers : l.maxRegisters ≤ l'.maxRegisters
  nameLen : l.maxNameLen ≤ l'.maxNameLen
  operands : l.maxOperands ≤ l'.maxOperands

/-- The limits that bound the tables of a script. -/
structure Below.OfTables (l l' : Limits) : Prop where
  instructions : l.maxInstructions ≤ l'.maxInstructions
  labels : l.maxLabels ≤ l'.maxLabels
  functions : l.maxFunctions ≤ l'.maxFunctions

theorem below_iff {l l' : Limits} : l.Below l' ↔ Below.OfTables l l' ∧ Below.OfText l l' := by
  unfold Below entries
  simp only [List.forall_mem_cons, List.not_mem_nil]
  constructor
  · rintro ⟨hi, hl, hf, hline, hwords, hword, hr, hname, ho, _⟩
    exact ⟨⟨hi, hl, hf⟩, hline, hwords, hword, hr, hname, ho⟩
  · rintro ⟨⟨hi, hl, hf⟩, hline, hwords, hword, hr, hname, ho⟩
    exact ⟨hi, hl, hf, hline, hwords, hword, hr, hname, ho, nofun⟩

end Limits

variable {limits limits' : Limits}

/-! ## §2 Lines and words -/

namespace Source

theorem readLine_mono {max max' : Nat} (h : max ≤ max') {segment : Bytes} {text : Text}
    (hread : readLine max segment = .ok text) : readLine max' segment = .ok text := by
  unfold readLine at hread ⊢
  simp only at hread ⊢
  split at hread
  · cases hread
  next hlen =>
    rw [if_neg (Nat.not_lt.mpr (Nat.le_trans (Nat.le_of_not_lt hlen) h))]
    exact hread

theorem enforce_mono {maxLen maxLen' max max' room room' : Nat} (hlen : maxLen ≤ maxLen')
    (hroom : room ≤ room') {ws out : List Text} (h : enforce maxLen max ws room = .ok out) :
    enforce maxLen' max' ws room' = .ok out := by
  induction ws generalizing room room' out with
  | nil => exact h
  | cons w ws ih =>
    simp only [enforce] at h ⊢
    split at h
    · cases h
    next hw =>
      split at h
      · cases h
      next hr =>
        obtain ⟨rest, hrest, rfl⟩ := map_eq_ok_iff.mp h
        rw [if_neg (by omega), if_neg (by omega), ih (by omega) hrest]
        rfl

theorem splitWords_mono (h : Limits.Below.OfText limits limits') {line : Text} {ws : List Text}
    (hsplit : splitWords limits line = .ok ws) : splitWords limits' line = .ok ws :=
  enforce_mono h.wordLen h.wordsPerLine hsplit

end Source

/-! ## §3 Operands -/

namespace Operand

theorem readName_mono (h : Limits.Below.OfText limits limits') {word name : Text}
    (hread : readName limits word = .ok name) : readName limits' word = .ok name := by
  obtain ⟨rfl, hne, hany, hlen⟩ := readName_eq_ok_iff.mp hread
  exact readName_eq_ok_iff.mpr ⟨rfl, hne, hany, Nat.le_trans hlen h.nameLen⟩

theorem readRegister_mono (h : Limits.Below.OfText limits limits') {token digits : Text} {r : UInt8}
    (hread : readRegister limits token digits = .ok r) :
    readRegister limits' token digits = .ok r := by
  have hle := h.registers
  unfold readRegister at hread ⊢
  split at hread
  · cases hread
  next index hindex =>
    split at hread
    · cases hread
    next hlt =>
      rw [if_neg (by omega)]
      exact hread

theorem readOffset?_mono (h : Limits.Below.OfText limits limits') {token : Text} {offset : Offset}
    (hread : readOffset? limits token = some offset) : readOffset? limits' token = some offset := by
  unfold readOffset? at hread ⊢
  split at hread
  · obtain ⟨r, hr, rfl⟩ := Option.map_eq_some_iff.mp hread
    exact Option.map_eq_some_iff.mpr ⟨r, toOption_eq_some_iff.mpr
      (readRegister_mono h (toOption_eq_some_iff.mp hr)), rfl⟩
  · exact hread
  · cases hread

theorem readMemory_mono (h : Limits.Below.OfText limits limits') {token rest : Text} {m : Memory}
    (hread : readMemory limits token rest = .ok m) : readMemory limits' token rest = .ok m := by
  unfold readMemory at hread ⊢
  split at hread
  · cases hread
  next c rest =>
    split at hread
    next hbank hinside =>
      split at hread
      next hoffset =>
        rw [readOffset?_mono h hoffset]
        exact hread
      · cases hread
    · cases hread

theorem read_mono (h : Limits.Below.OfText limits limits') {context : Context} {token : Text}
    {o : Operand} (hread : read limits context token = .ok o) :
    read limits' context token = .ok o := by
  unfold read at hread ⊢
  split at hread
  · cases hread
  next hsize =>
    rw [if_neg hsize]
    split at hread
    · obtain ⟨r, hr, rfl⟩ := map_eq_ok_iff.mp hread
      exact map_eq_ok_iff.mpr ⟨r, readRegister_mono h hr, rfl⟩
    · exact hread
    · obtain ⟨name, hname, rfl⟩ := map_eq_ok_iff.mp hread
      exact map_eq_ok_iff.mpr ⟨name, readName_mono h hname, rfl⟩
    · obtain ⟨m, hm, rfl⟩ := map_eq_ok_iff.mp hread
      exact map_eq_ok_iff.mpr ⟨m, readMemory_mono h hm, rfl⟩
    · cases hread

end Operand

/-! ## §4 Scripts -/

theorem Item.Written.mono (h : Limits.Below.OfText limits limits') {item : Item} {row : Row}
    (hw : item.Written limits row) : item.Written limits' row := by
  cases hw with
  | label allowed => exact .label (Operand.readName_mono h allowed)
  | instruction known within arity read fits =>
    exact .instruction known (Nat.le_trans within h.operands) arity
      (read.imp fun _ _ hread => Operand.read_mono h hread) fits

theorem Block.Written.mono (h : Limits.Below.OfText limits limits') {b : Block} {rows : List Row}
    (hw : b.Written limits rows) : b.Written limits' rows := by
  cases hw with
  | mk allowed inside =>
    exact .mk (Operand.readName_mono h allowed) (inside.imp fun _ _ hitem => hitem.mono h)

namespace Script

variable {script : Script}

theorem OfSource.mono (h : Limits.Below.OfText limits limits') {source : Bytes}
    (hs : OfSource limits source script) : OfSource limits' source script := by
  obtain ⟨lines, hlines, blocks, hblocks, hrows⟩ := hs
  refine ⟨lines, ?_, blocks, hblocks.imp fun _ _ hb => hb.mono h, hrows⟩
  rw [Source.lines, List.forall₂_map_left_iff] at hlines ⊢
  refine hlines.imp fun segment words => ?_
  rintro ⟨text, htext, hwords⟩
  exact ⟨text, Source.readLine_mono h.lineLen htext, Source.splitWords_mono h hwords⟩

theorem Within.mono (h : Limits.Below.OfTables limits limits') (hw : Within limits script) :
    Within limits' script where
  instructions := Nat.le_trans hw.instructions h.instructions
  labels := Nat.le_trans hw.labels h.labels
  functions := Nat.le_trans hw.functions h.functions

end Script

end SensorScript
