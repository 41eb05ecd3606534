/-
SensorScript.Proofs.Operand.Bytewise — the reader by byte positions never stumbles.

It looks at bytes that are there, cuts words behind ASCII characters only and
ends, as the text in brackets is shorter than the word; and what it reads is what
`Operand.read` does (`read_eq`).
-/
import SensorScript.Operand.Bytewise
import SensorScript.Proofs.Operand.Form
import SensorScript.Proofs.Text.Slice

namespace SensorScript.Operand.Bytewise

variable {limits : Limits} {context : Context} {c : Char} {t : Text}

/-! ## §1 Careful steps -/

theorem sliceFrom_one (h : c.toNat < 0x80) (t : Text) : sliceFrom (c :: t) 1 = .ok t := by
  simp [sliceFrom, Utf8.sliceFrom?_cons_ascii h]

theorem sliceFrom_two {c' : Char} (h : c.toNat < 0x80) (h' : c'.toNat < 0x80) (t : Text) :
    sliceFrom (c :: c' :: t) 2 = .ok t := by
  simp [sliceFrom, Utf8.sliceFrom?_cons_ascii h, Utf8.sliceFrom?_cons_ascii h']

/-! ## §2 Literals -/

theorem isDigitByte_iff {b : UInt8} : isDigitByte b = true ↔ 0x30 ≤ b.toNat ∧ b.toNat ≤ 0x39 := by
  simp [isDigitByte, UInt8.le_iff_toNat_le]

theorem isHexDigitByte_iff {b : UInt8} : isHexDigitByte b = true ↔
    (0x30 ≤ b.toNat ∧ b.toNat ≤ 0x39) ∨ (0x61 ≤ b.toNat ∧ b.toNat ≤ 0x66) ∨
      (0x41 ≤ b.toNat ∧ b.toNat ≤ 0x46) := by
  simp [isHexDigitByte, isDigitByte_iff, UInt8.le_iff_toNat_le, or_assoc]

theorem all_isDigitByte (t : Text) : (Utf8.encode t).all isDigitByte = t.all Char.isDigit := by
  refine Utf8.all_encode (fun b h => ?_) (fun c h => ?_) (fun c h => ?_) t
  · have := isDigitByte_iff.mp h
    omega
  · have := Numeral.isDigit_iff.mp h
    omega
  · rw [Bool.eq_iff_iff, isDigitByte_iff, Numeral.isDigit_iff, Utf8.toNat_asciiByte h]

theorem all_isHexDigitByte (t : Text) :
    (Utf8.encode t).all isHexDigitByte = t.all Numeral.isHexDigit := by
  refine Utf8.all_encode (fun b h => ?_) (fun c h => ?_) (fun c h => ?_) t
  · have := isHexDigitByte_iff.mp h
    omega
  · have := Numeral.isHexDigit_iff.mp h
    omega
  · rw [Bool.eq_iff_iff, isHexDigitByte_iff, Numeral.isHexDigit_iff, Utf8.toNat_asciiByte h]

theorem toNat_lt_of_mark {x : Char} (h : x = 'x' ∨ x = 'X') : x.toNat < 0x80 := by
  rcases h with rfl | rfl
  · decide
  · decide

/-- Three bytes or more with a mark in front are a mark and something behind it. -/
theorem marked_iff :
    (2 < Utf8.size t ∧ (['0', 'x'].isPrefixOf t = true ∨ ['0', 'X'].isPrefixOf t = true)) ↔
      ∃ x digits, t = '0' :: x :: digits ∧ (x = 'x' ∨ x = 'X') ∧ digits ≠ [] := by
  have hsize {x : Char} {digits : Text} (hx : x = 'x' ∨ x = 'X') :
      Utf8.size ('0' :: x :: digits) = 2 + Utf8.size digits := by
    rw [Utf8.size_cons, Utf8.size_cons, Utf8.encodeChar_ascii (toNat_lt_of_mark hx),
      Utf8.encodeChar_ascii (by decide), ← Nat.add_assoc]
    rfl
  simp only [List.isPrefixOf_iff_prefix]
  constructor
  · have hbehind {x : Char} {digits : Text} (hx : x = 'x' ∨ x = 'X')
        (h : 2 < Utf8.size ('0' :: x :: digits)) : digits ≠ [] := by
      rintro rfl
      rw [hsize hx] at h
      exact absurd h (by decide)
    rintro ⟨h, ⟨digits, rfl⟩ | ⟨digits, rfl⟩⟩
    · exact ⟨'x', digits, rfl, .inl rfl, hbehind (.inl rfl) h⟩
    · exact ⟨'X', digits, rfl, .inr rfl, hbehind (.inr rfl) h⟩
  · rintro ⟨x, digits, rfl, hx, hne⟩
    have hpos := Nat.lt_of_lt_of_le (List.length_pos_iff.mpr hne) (Utf8.length_le_size digits)
    refine ⟨by rw [hsize hx]; omega, ?_⟩
    rcases hx with rfl | rfl
    · exact .inl ⟨digits, rfl⟩
    · exact .inr ⟨digits, rfl⟩

theorem radix?_eq (allowHex : Bool) (t : Text) :
    radix? allowHex t = .ok (Numeral.radix? allowHex t) := by
  unfold radix? Numeral.radix? Numeral.split?
  rw [all_isDigitByte]
  split
  · rfl
  split
  · rfl
  split
  next h =>
    obtain ⟨rfl, hmarked⟩ := h
    obtain ⟨x, digits, rfl, hx, hne⟩ := marked_iff.mp hmarked
    rw [sliceFrom_two (by decide) (toNat_lt_of_mark hx)]
    show Except.ok (if (Utf8.encode digits).all isHexDigitByte = true then _ else _) = _
    rw [all_isHexDigitByte]
    by_cases hall : digits.all Numeral.isHexDigit = true
    · simp [Numeral.hexDigits?, hx, hne, hall]
    · simp [Numeral.hexDigits?, hall]
  next h =>
    cases allowHex with
    | false => rfl
    | true =>
      cases hdigits : Numeral.hexDigits? t with
      | none => rfl
      | some digits =>
        obtain ⟨x, ht, hx, hne, _⟩ := Numeral.hexDigits?_eq_some_iff.mp hdigits
        exact absurd ⟨rfl, marked_iff.mpr ⟨x, digits, ht, hx, hne⟩⟩ h

/-- A literal is read as it is read character by character. -/
theorem readLiteral_eq (allowHex : Bool) (t : Text) :
    readLiteral allowHex t = .ok (Numeral.read? allowHex t) := by
  unfold readLiteral Numeral.read?
  rw [radix?_eq, Numeral.radix?]
  cases hsplit : Numeral.split? allowHex t with
  | none => rfl
  | some literal =>
    obtain ⟨radix, digits⟩ := literal
    cases radix with
    | decimal =>
      obtain ⟨rfl, _, _⟩ := Numeral.split?_eq_some_decimal hsplit
      rfl
    | hex =>
      obtain ⟨x, rfl, hx, _, _⟩ :=
        Numeral.hexDigits?_eq_some_iff.mp (Numeral.split?_eq_some_hex hsplit).2
      have hslice := sliceFrom_two (c := '0') (by decide) (toNat_lt_of_mark hx) digits
      show (sliceFrom _ 2 >>= fun digits => _) = _
      rw [hslice]
      rfl

/-! ## §3 Operands -/

theorem predecessor_eq {n : Nat} (h : 1 ≤ n) : predecessor n = .ok (n - 1) := by
  cases n with
  | zero => cases h
  | succ n => rfl

theorem readRegister_eq (hregisters : 1 ≤ limits.maxRegisters) (digits : Text) :
    readRegister limits ('R' :: digits) =
      .ok (Operand.readRegister limits ('R' :: digits) digits) := by
  unfold readRegister Operand.readRegister
  rw [sliceFrom_one (by decide)]
  show (readLiteral false digits >>= fun index? => _) = _
  rw [readLiteral_eq]
  cases Numeral.read? false digits with
  | none => rfl
  | some index =>
    show (if limits.maxRegisters ≤ index.toNat then _ else _) = _
    rw [predecessor_eq hregisters]
    simp only
    split
    · rfl
    · rfl

theorem readImmediate_eq (literal : Text) :
    readImmediate ('$' :: literal) = .ok (Operand.readImmediate ('$' :: literal) literal) := by
  unfold readImmediate Operand.readImmediate
  rw [sliceFrom_one (by decide)]
  show (readLiteral true literal >>= fun value? => _) = _
  rw [readLiteral_eq]
  cases Numeral.read? true literal with
  | none => rfl
  | some value => rfl

theorem readReference_eq (name : Text) :
    readReference limits context ('@' :: name) =
      .ok ((readName limits name).map (reference context)) := by
  rw [readReference, sliceFrom_one (by decide)]
  rfl

/-- An offset in brackets is what is read as a register or an immediate. -/
theorem readOffset?_eq_some_iff {inside : Text} {offset : Offset} :
    readOffset? limits inside = some offset ↔
      Operand.read limits .plain inside = .ok offset.operand := by
  constructor
  · intro h
    unfold readOffset? at h
    split at h
    next digits =>
      obtain ⟨r, hr, rfl⟩ := Option.map_eq_some_iff.mp h
      have hr := toOption_eq_some_iff.mp hr
      have hne : digits ≠ [] := by
        rintro rfl
        cases hr
      rw [read_register_eq hne, hr]
      rfl
    next literal =>
      obtain ⟨v, hv, rfl⟩ := Option.map_eq_some_iff.mp h
      have hv := toOption_eq_some_iff.mp hv
      have hne : literal ≠ [] := by
        rintro rfl
        cases hv
      rw [read_immediate_eq hne, hv]
      rfl
    · cases h
  · intro h
    unfold Operand.read at h
    split at h
    · cases h
    split at h
    · obtain ⟨r, hr, ho⟩ := map_eq_ok_iff.mp h
      cases offset with
      | register r' =>
        cases ho
        simp [readOffset?, hr, Except.toOption]
      | immediate v => cases ho
    · obtain ⟨v, hv, ho⟩ := map_eq_ok_iff.mp h
      cases offset with
      | register r => cases ho
      | immediate v' =>
        cases ho
        simp [readOffset?, hv, Except.toOption]
    · obtain ⟨name, _, ho⟩ := map_eq_ok_iff.mp h
      cases offset <;> cases ho
    · obtain ⟨m, _, ho⟩ := map_eq_ok_iff.mp h
      cases offset <;> cases ho
    · cases h

/-- The first byte of a word tells what its first character does. -/
theorem bankOfByte?_eq {b : UInt8}
    (h : ∀ s : Char, s.toNat < 0x80 → (b = Utf8.asciiByte s ↔ c = s)) :
    bankOfByte? b = readBank? c := by
  unfold bankOfByte?
  by_cases h0 : c = '0'
  · rw [if_pos ((h '0' (by decide)).mpr h0), h0]
    rfl
  by_cases h1 : c = '1'
  · rw [if_neg (mt (h '0' (by decide)).mp h0), if_pos ((h '1' (by decide)).mpr h1), h1]
    rfl
  · rw [if_neg (mt (h '0' (by decide)).mp h0), if_neg (mt (h '1' (by decide)).mp h1)]
    unfold readBank?
    split
    · exact absurd rfl h0
    · exact absurd rfl h1
    · rfl

theorem toNat_lt_of_readBank? {bank : Bank} (h : readBank? c = some bank) : c.toNat < 0x80 := by
  rw [readBank?_eq_some_iff.mp h]
  cases bank
  · decide
  · decide

/-- The second byte tells the bank. -/
theorem exists_byteAt_one (c : Char) (rest : Text) :
    ∃ b, byteAt ('M' :: c :: rest) 1 = .ok b ∧ bankOfByte? b = readBank? c := by
  obtain ⟨b, hb, htells⟩ := Utf8.exists_byte?_zero c rest
  refine ⟨b, ?_, bankOfByte?_eq htells⟩
  rw [byteAt, Utf8.byte?_cons_ascii (by decide), hb]

/-- A memory word is cut into its bank and what stands in brackets. -/
theorem memoryParts_eq (c : Char) (rest : Text) :
    (memoryParts ('M' :: c :: rest)).map
        (fun parts? => parts?.map fun parts => (parts.1, parts.2.val)) =
      .ok ((readBank? c).bind fun bank =>
        (insideBrackets? rest).map fun inside => (bank, inside)) := by
  obtain ⟨b, hb, hbank⟩ := exists_byteAt_one c rest
  unfold memoryParts
  simp only [hb, bind, Except.bind, hbank]
  cases hc : readBank? c with
  | none => rfl
  | some bank =>
    -- The bank is one byte, so a character ends behind it.
    have hslice : Utf8.sliceFrom? ('M' :: c :: rest) 2 = some rest := by
      simp [Utf8.sliceFrom?_cons_ascii, toNat_lt_of_readBank? hc]
    simp only
    split
    next h => rw [hslice] at h; cases h
    next h =>
      rw [hslice] at h
      cases h
      split
      next hinside => rw [hinside]; rfl
      next hinside => exact congrArg (fun o => Except.ok (o.map (bank, ·))) hinside.symm

theorem readMemory_of_no_parts {token rest : Text}
    (h : ((readBank? c).bind fun bank =>
      (insideBrackets? rest).map fun inside => (bank, inside)) = none) :
    Operand.readMemory limits token (c :: rest) = .error (.invalidMemory token) := by
  unfold Operand.readMemory
  split
  · rfl
  next heq =>
    obtain ⟨rfl, rfl⟩ := List.cons.inj heq
    split
    next hbank hinside => simp [hbank, hinside] at h
    · rfl

/-- A memory word is read when the text in its brackets is. -/
theorem readMemory_eq (context : Context) (rest : Text)
    (ih : ∀ inside : Text, inside.length < rest.length + 1 →
      read limits .plain inside = .ok (Operand.read limits .plain inside)) (hrest : rest ≠ []) :
    read limits context ('M' :: rest) =
      .ok ((readMemory limits ('M' :: rest) rest).map .memory) := by
  obtain ⟨c, rest, rfl⟩ := List.exists_cons_of_ne_nil hrest
  rw [read, if_neg (Utf8.not_size_cons_lt _ hrest)]
  show (memoryParts ('M' :: c :: rest) >>= fun parts? => _) = _
  obtain ⟨parts?, hparts, hmap⟩ := map_eq_ok_iff.mp (memoryParts_eq c rest)
  rw [hparts]
  cases parts? with
  | none =>
    rw [readMemory_of_no_parts hmap.symm]
    rfl
  | some parts =>
    obtain ⟨bank, inside, hlt⟩ := parts
    obtain ⟨_, hbank, hinside⟩ := Option.bind_eq_some_iff.mp hmap.symm
    obtain ⟨_, hinside, heq⟩ := Option.map_eq_some_iff.mp hinside
    cases heq
    show (read limits .plain inside >>= fun o => _) = _
    rw [ih inside hlt, readMemory, hbank, hinside]
    cases hoffset : readOffset? limits inside with
    | some offset =>
      rw [readOffset?_eq_some_iff.mp hoffset]
      cases offset with
      | register r => simp only [hoffset]; rfl
      | immediate v => simp only [hoffset]; rfl
    | none =>
      have hnone (offset : Offset) : Operand.read limits .plain inside ≠ .ok offset.operand := by
        intro h
        rw [readOffset?_eq_some_iff.mpr h] at hoffset
        cases hoffset
      simp only [hoffset, bind, Except.bind]
      split
      next r h => exact absurd h (hnone (.register r))
      next v h => exact absurd h (hnone (.immediate v))
      · rfl

/-- The first byte of any other character is none of the sigils either. -/
theorem read_unknown (context : Context) {rest : Text} (hc : c ∉ ['R', '$', '@', 'M'])
    (hsize : ¬ Utf8.size (c :: rest) < 2) :
    read limits context (c :: rest) = .ok (Operand.read limits context (c :: rest)) := by
  simp only [List.mem_cons, List.not_mem_nil, or_false, not_or] at hc
  obtain ⟨hR, hI, hS, hM⟩ := hc
  obtain ⟨b, hb, htells⟩ := Utf8.exists_byte?_zero c rest
  have hbyte : byteAt (c :: rest) 0 = .ok b := by rw [byteAt, hb]
  unfold Operand.read
  rw [read, if_neg hsize, if_neg hsize, hbyte]
  show (if b = Utf8.asciiByte 'R' then _ else if b = Utf8.asciiByte '$' then _
    else if b = Utf8.asciiByte '@' then _ else if b = Utf8.asciiByte 'M' then _ else _) = _
  rw [if_neg (mt (htells 'R' (by decide)).mp hR), if_neg (mt (htells '$' (by decide)).mp hI),
    if_neg (mt (htells '@' (by decide)).mp hS), if_neg (mt (htells 'M' (by decide)).mp hM)]
  split
  next h => exact absurd (List.head_eq_of_cons_eq h) hR
  next h => exact absurd (List.head_eq_of_cons_eq h) hI
  next h => exact absurd (List.head_eq_of_cons_eq h) hS
  next h => exact absurd (List.head_eq_of_cons_eq h) hM
  · rfl

/-- The reader by byte positions takes no wrong step and reads what is read
character by character. -/
theorem read_eq (hregisters : 1 ≤ limits.maxRegisters) (context : Context) (token : Text) :
    read limits context token = .ok (Operand.read limits context token) := by
  induction hn : token.length using Nat.strongRecOn generalizing context token with
  | ind n ih =>
    subst hn
    by_cases hsize : Utf8.size token < 2
    · unfold Operand.read
      rw [read, if_pos hsize, if_pos hsize]
      rfl
    cases token with
    | nil => exact absurd (by decide) hsize
    | cons c rest =>
      have hrest : c.toNat < 0x80 → rest ≠ [] := by
        rintro hc rfl
        simp [Utf8.size, Utf8.encodeChar_ascii hc] at hsize
      by_cases hR : c = 'R'
      · subst hR
        rw [read_register_eq (hrest (by decide)), read, if_neg hsize]
        show (readRegister limits ('R' :: rest) >>= fun r => _) = _
        rw [readRegister_eq hregisters]
        rfl
      by_cases hI : c = '$'
      · subst hI
        rw [read_immediate_eq (hrest (by decide)), read, if_neg hsize]
        show (readImmediate ('$' :: rest) >>= fun v => _) = _
        rw [readImmediate_eq]
        rfl
      by_cases hS : c = '@'
      · subst hS
        rw [read_reference_eq (hrest (by decide)), read, if_neg hsize]
        exact readReference_eq rest
      by_cases hM : c = 'M'
      · subst hM
        rw [read_memory_eq (hrest (by decide))]
        exact readMemory_eq context rest (fun inside h => ih _ h .plain inside rfl)
          (hrest (by decide))
      · refine read_unknown context ?_ hsize
        simp [hR, hI, hS, hM]

/-! ## §4 All words -/

/-- With 1 to 256 registers, the reader by byte positions comes through every word
without a wrong step, what it reads is what is read character by character, and
that is an operand exactly when the word has a form of it. So there is an error
for all other words. -/
theorem reads_exactly_forms (hregisters : 1 ≤ limits.maxRegisters ∧ limits.maxRegisters ≤ 256)
    (context : Context) (token : Text) :
    read limits context token = .ok (Operand.read limits context token) ∧
      ∀ o, Operand.read limits context token = .ok o ↔ Form limits context token o :=
  ⟨read_eq hregisters.1 context token, fun _ => read_eq_ok_iff hregisters.2⟩

/-- Leading zeros and hexadecimal digits in brackets. -/
theorem reads_padded_offset :
    (1 ≤ (Limits.maxRegisters {}) ∧ (Limits.maxRegisters {}) ≤ 256) ∧
      read {} .plain "M1[$0x00fF]".toList = .ok (.ok (.memory ⟨.m1, .immediate 0xFF⟩)) ∧
      Form {} .plain "M1[$0x00fF]".toList (.memory ⟨.m1, .immediate 0xFF⟩) := by
  have hregisters : 1 ≤ (Limits.maxRegisters {}) ∧ (Limits.maxRegisters {}) ≤ 256 := by decide
  have h := reads_exactly_forms hregisters .plain "M1[$0x00fF]".toList
  have hread : Operand.read {} .plain "M1[$0x00fF]".toList =
      .ok (.memory ⟨.m1, .immediate 0xFF⟩) := rfl
  exact ⟨hregisters, hread ▸ h.1, (h.2 _).mp hread⟩

end SensorScript.Operand.Bytewise
