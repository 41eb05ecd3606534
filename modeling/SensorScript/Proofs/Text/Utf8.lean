/-
SensorScript.Proofs.Text.Utf8 — writing and reading UTF-8 undo each other.

  §1 numbers: what one byte carries, and which character a number is;
  §2 forms: the bytes of one character are exactly those that join to it;
  §3 texts: `decode_encode` and `encode_of_decode`, so a byte sequence has at
     most one text and every text exactly one byte sequence;
  §4 sizes, and the bytes of ASCII characters;
  §5 validity: a byte sequence is cut at an ASCII character into two valid ones.

`join?` is where the two directions meet: `decode` cuts a buffer into forms
that join, and `encodeChar` gives the only form that joins to a character.
-/
import SensorScript.Text.Utf8

namespace SensorScript.Utf8

/-! ## §1 Numbers -/

theorem ofNat_eq_of_toNat {b : UInt8} {n : Nat} (h : b.toNat = n) : UInt8.ofNat n = b := by
  rw [← h, UInt8.ofNat_toNat]

theorem tail?_ofNat {x : Nat} (h : x < 0x40) : tail? (UInt8.ofNat (0x80 + x)) = some x := by
  have hb : (UInt8.ofNat (0x80 + x)).toNat = 0x80 + x :=
    UInt8.toNat_ofNat_of_lt' (show _ < 0x100 by omega)
  have hin : 0x80 ≤ 0x80 + x ∧ 0x80 + x < 0xC0 := by omega
  simp only [tail?, hb, if_pos hin, Nat.add_sub_cancel_left]

theorem eq_of_tail? {b : UInt8} {x : Nat} (h : tail? b = some x) :
    x < 0x40 ∧ b.toNat = 0x80 + x := by
  unfold tail? at h
  split at h
  · have hx := Option.some.inj h
    omega
  · cases h

theorem char?_toNat {least : Nat} {c : Char} (h : least ≤ c.toNat) :
    char? least c.toNat = some c := by
  unfold char?
  rw [dif_pos ⟨h, c.valid⟩]
  exact congrArg some (Char.ext (UInt32.toNat_inj.mp rfl))

theorem eq_of_char? {least n : Nat} {c : Char} (h : char? least n = some c) :
    least ≤ n ∧ c.toNat = n := by
  unfold char? at h
  by_cases hn : least ≤ n ∧ n.isValidChar
  · rw [dif_pos hn] at h
    cases h
    exact ⟨hn.1, rfl⟩
  · rw [dif_neg hn] at h
    cases h

/-- Scalar values end at 0x10FFFF. -/
theorem toNat_lt (c : Char) : c.toNat < 0x110000 := by
  have h := c.valid
  simp only [UInt32.isValidChar, Nat.isValidChar] at h
  show c.val.toNat < 0x110000
  omega

/-! ## §2 Forms -/

theorem join?_encodeChar (c : Char) : join? (encodeChar c) = some c := by
  have hc := toNat_lt c
  simp only [encodeChar]
  split
  · rename_i h
    have h0 : (UInt8.ofNat c.toNat).toNat = c.toNat :=
      UInt8.toNat_ofNat_of_lt' (show _ < 0x100 by omega)
    simp only [join?, h0, if_pos h]
    exact char?_toNat (Nat.zero_le _)
  split
  · have h0 : (UInt8.ofNat (0xC0 + c.toNat / 0x40)).toNat = 0xC0 + c.toNat / 0x40 :=
      UInt8.toNat_ofNat_of_lt' (show _ < 0x100 by omega)
    simp only [join?, h0]
    rw [if_pos (by omega), tail?_ofNat (by omega)]
    show char? 0x80 ((0xC0 + c.toNat / 0x40 - 0xC0) * 0x40 + c.toNat % 0x40) = some c
    rw [show (0xC0 + c.toNat / 0x40 - 0xC0) * 0x40 + c.toNat % 0x40 = c.toNat by omega]
    exact char?_toNat (by omega)
  split
  · have h0 : (UInt8.ofNat (0xE0 + c.toNat / 0x1000)).toNat = 0xE0 + c.toNat / 0x1000 :=
      UInt8.toNat_ofNat_of_lt' (show _ < 0x100 by omega)
    simp only [join?, h0]
    rw [if_pos (by omega), tail?_ofNat (by omega), tail?_ofNat (by omega)]
    show char? 0x800 (((0xE0 + c.toNat / 0x1000 - 0xE0) * 0x40 + c.toNat / 0x40 % 0x40) * 0x40 +
      c.toNat % 0x40) = some c
    rw [show ((0xE0 + c.toNat / 0x1000 - 0xE0) * 0x40 + c.toNat / 0x40 % 0x40) * 0x40 +
      c.toNat % 0x40 = c.toNat by omega]
    exact char?_toNat (by omega)
  · have h0 : (UInt8.ofNat (0xF0 + c.toNat / 0x40000)).toNat = 0xF0 + c.toNat / 0x40000 :=
      UInt8.toNat_ofNat_of_lt' (show _ < 0x100 by omega)
    simp only [join?, h0]
    rw [if_pos (by omega), tail?_ofNat (by omega), tail?_ofNat (by omega), tail?_ofNat (by omega)]
    show char? 0x10000 ((((0xF0 + c.toNat / 0x40000 - 0xF0) * 0x40 + c.toNat / 0x1000 % 0x40) *
      0x40 + c.toNat / 0x40 % 0x40) * 0x40 + c.toNat % 0x40) = some c
    rw [show (((0xF0 + c.toNat / 0x40000 - 0xF0) * 0x40 + c.toNat / 0x1000 % 0x40) * 0x40 +
      c.toNat / 0x40 % 0x40) * 0x40 + c.toNat % 0x40 = c.toNat by omega]
    exact char?_toNat (by omega)

/-- The range of the first byte and the values of the others, for every length
of a form. -/
inductive Form : List UInt8 → Char → Prop
  | one {a c} (ha : a.toNat < 0x80) (hc : c.toNat = a.toNat) : Form [a] c
  | two {a b x c} (ha : 0xC0 ≤ a.toNat ∧ a.toNat < 0xE0) (hb : tail? b = some x)
      (least : 0x80 ≤ c.toNat) (hc : c.toNat = (a.toNat - 0xC0) * 0x40 + x) : Form [a, b] c
  | three {a b c' x y c} (ha : 0xE0 ≤ a.toNat ∧ a.toNat < 0xF0) (hb : tail? b = some x)
      (hc' : tail? c' = some y) (least : 0x800 ≤ c.toNat)
      (hc : c.toNat = ((a.toNat - 0xE0) * 0x40 + x) * 0x40 + y) : Form [a, b, c'] c
  | four {a b c' d x y z c} (ha : 0xF0 ≤ a.toNat) (hb : tail? b = some x)
      (hc' : tail? c' = some y) (hd : tail? d = some z) (least : 0x10000 ≤ c.toNat)
      (hc : c.toNat = (((a.toNat - 0xF0) * 0x40 + x) * 0x40 + y) * 0x40 + z) :
      Form [a, b, c', d] c

theorem form_of_join? {bs : List UInt8} {c : Char} (h : join? bs = some c) : Form bs c := by
  unfold join? at h
  split at h
  · split at h
    next ha => exact .one ha (eq_of_char? h).2
    · cases h
  · split at h
    next ha =>
      obtain ⟨x, hx, h⟩ := Option.bind_eq_some_iff.mp h
      obtain ⟨hl, hc⟩ := eq_of_char? h
      exact .two ha hx (hc ▸ hl) hc
    · cases h
  · split at h
    next ha =>
      obtain ⟨x, hx, h⟩ := Option.bind_eq_some_iff.mp h
      obtain ⟨y, hy, h⟩ := Option.bind_eq_some_iff.mp h
      obtain ⟨hl, hc⟩ := eq_of_char? h
      exact .three ha hx hy (hc ▸ hl) hc
    · cases h
  · split at h
    next ha =>
      obtain ⟨x, hx, h⟩ := Option.bind_eq_some_iff.mp h
      obtain ⟨y, hy, h⟩ := Option.bind_eq_some_iff.mp h
      obtain ⟨z, hz, h⟩ := Option.bind_eq_some_iff.mp h
      obtain ⟨hl, hc⟩ := eq_of_char? h
      exact .four ha hx hy hz (hc ▸ hl) hc
    · cases h
  · cases h

/-- A character has no other form than the one it is written in. -/
theorem encodeChar_of_join? {bs : List UInt8} {c : Char} (h : join? bs = some c) :
    encodeChar c = bs := by
  simp only [encodeChar]
  cases form_of_join? h with
  | @one a _ ha hc =>
    rw [if_pos (by omega), ofNat_eq_of_toNat hc.symm]
  | @two a b x _ ha hb least hc =>
    obtain ⟨hx, hb⟩ := eq_of_tail? hb
    rw [if_neg (by omega), if_pos (by omega), ofNat_eq_of_toNat (b := a) (by omega),
      ofNat_eq_of_toNat (b := b) (by omega)]
  | @three a b d x y _ ha hb hd least hc =>
    obtain ⟨hx, hb⟩ := eq_of_tail? hb
    obtain ⟨hy, hd⟩ := eq_of_tail? hd
    rw [if_neg (by omega), if_neg (by omega), if_pos (by omega),
      ofNat_eq_of_toNat (b := a) (by omega), ofNat_eq_of_toNat (b := b) (by omega),
      ofNat_eq_of_toNat (b := d) (by omega)]
  | @four a b d e x y z _ ha hb hd he least hc =>
    obtain ⟨hx, hb⟩ := eq_of_tail? hb
    obtain ⟨hy, hd⟩ := eq_of_tail? hd
    obtain ⟨hz, he⟩ := eq_of_tail? he
    have := toNat_lt c
    rw [if_neg (by omega), if_neg (by omega), if_neg (by omega),
      ofNat_eq_of_toNat (b := a) (by omega), ofNat_eq_of_toNat (b := b) (by omega),
      ofNat_eq_of_toNat (b := d) (by omega), ofNat_eq_of_toNat (b := e) (by omega)]

/-! ## §3 Texts -/

/-- `decode` takes a form off the front, whatever follows it. -/
theorem decode_append_of_join? {bs : List UInt8} {c : Char} (h : join? bs = some c)
    (rest : Bytes) : decode (bs ++ rest) = (decode rest).map (c :: ·) := by
  have hmap : ∀ o : Option Text, (o.bind fun t => some (c :: t)) = o.map (c :: ·) := by
    intro o; cases o <;> rfl
  cases form_of_join? h with
  | @one a _ ha _ =>
    rw [List.cons_append, List.nil_append, decode.eq_def]
    simp only [if_pos ha, h]
    exact hmap _
  | @two a b _ _ ha _ _ _ =>
    have h1 : ¬ a.toNat < 0x80 := by omega
    rw [List.cons_append, List.cons_append, List.nil_append, decode.eq_def]
    simp only [if_neg h1, if_pos ha.2, h]
    exact hmap _
  | @three a b d _ _ _ ha _ _ _ _ =>
    have h1 : ¬ a.toNat < 0x80 := by omega
    have h2 : ¬ a.toNat < 0xE0 := by omega
    rw [List.cons_append, List.cons_append, List.cons_append, List.nil_append, decode.eq_def]
    simp only [if_neg h1, if_neg h2, if_pos ha.2, h]
    exact hmap _
  | @four a b d e _ _ _ _ ha _ _ _ _ _ =>
    have h1 : ¬ a.toNat < 0x80 := by omega
    have h2 : ¬ a.toNat < 0xE0 := by omega
    have h3 : ¬ a.toNat < 0xF0 := by omega
    rw [List.cons_append, List.cons_append, List.cons_append, List.cons_append, List.nil_append,
      decode.eq_def]
    simp only [if_neg h1, if_neg h2, if_neg h3, h]
    exact hmap _

/-- A buffer that is not empty starts with a form. -/
theorem decode_cons {a : UInt8} {bs : Bytes} {t : Text} (h : decode (a :: bs) = some t) :
    ∃ form c rest t', join? form = some c ∧ a :: bs = form ++ rest ∧
      decode rest = some t' ∧ t = c :: t' := by
  have hsplit : ∀ {form : List UInt8} {rest : Bytes},
      ((join? form).bind fun c => (decode rest).bind fun t => some (c :: t)) = some t →
      ∃ c t', join? form = some c ∧ decode rest = some t' ∧ t = c :: t' := by
    intro form rest h
    obtain ⟨c, hc, h⟩ := Option.bind_eq_some_iff.mp h
    obtain ⟨t', ht, h⟩ := Option.bind_eq_some_iff.mp h
    exact ⟨c, t', hc, ht, (Option.some.inj h).symm⟩
  rw [decode.eq_def] at h
  simp only at h
  split at h
  · obtain ⟨c, t', hc, ht, rfl⟩ := hsplit h
    exact ⟨[a], c, bs, t', hc, rfl, ht, rfl⟩
  split at h
  · cases h
  split at h
  · obtain ⟨c, t', hc, ht, rfl⟩ := hsplit h
    exact ⟨[a, _], c, _, t', hc, rfl, ht, rfl⟩
  split at h
  · cases h
  split at h
  · obtain ⟨c, t', hc, ht, rfl⟩ := hsplit h
    exact ⟨[a, _, _], c, _, t', hc, rfl, ht, rfl⟩
  split at h
  · cases h
  · obtain ⟨c, t', hc, ht, rfl⟩ := hsplit h
    exact ⟨[a, _, _, _], c, _, t', hc, rfl, ht, rfl⟩

/-- Every text is read back from its bytes. -/
theorem decode_encode (t : Text) : decode (encode t) = some t := by
  induction t with
  | nil => rfl
  | cons c t ih => rw [encode_cons, decode_append_of_join? (join?_encodeChar c), ih]; rfl

theorem eq_of_encode_eq {s t : Text} (h : encode s = encode t) : s = t := by
  have hread := decode_encode s
  rw [h, decode_encode t] at hread
  exact (Option.some.inj hread).symm

/-- Bytes that are read as a text are the bytes of that text. -/
theorem encode_of_decode {bs : Bytes} {t : Text} (h : decode bs = some t) : encode t = bs := by
  induction t generalizing bs with
  | nil =>
    cases bs with
    | nil => rfl
    | cons a bs =>
      obtain ⟨_, _, _, _, _, _, _, ht⟩ := decode_cons h
      cases ht
  | cons c t ih =>
    cases bs with
    | nil => cases h
    | cons a bs =>
      obtain ⟨form, c', rest, t', hj, hbs, hrest, ht⟩ := decode_cons h
      cases ht
      rw [hbs, encode_cons, encodeChar_of_join? hj, ih hrest]

/-! ## §4 Sizes -/

theorem size_cons (c : Char) (t : Text) : size (c :: t) = (encodeChar c).length + size t := by
  rw [size, encode_cons, List.length_append, size]

theorem size_append (s t : Text) : size (s ++ t) = size s + size t := by
  rw [size, encode_append, List.length_append, size, size]

theorem encodeChar_ne_nil (c : Char) : encodeChar c ≠ [] := by
  intro h
  have hjoin := join?_encodeChar c
  rw [h] at hjoin
  cases hjoin

/-- Every character takes at least one byte. -/
theorem length_le_size (t : Text) : t.length ≤ size t := by
  induction t with
  | nil => exact Nat.le_refl _
  | cons c t ih =>
    have hpos := List.length_pos_iff.mpr (encodeChar_ne_nil c)
    rw [size_cons, List.length_cons]
    omega

/-- A character with something behind it takes two bytes or more. -/
theorem not_size_cons_lt (c : Char) {t : Text} (h : t ≠ []) : ¬ size (c :: t) < 2 := by
  have hpos := List.length_pos_iff.mpr h
  have hsize := length_le_size (c :: t)
  rw [List.length_cons] at hsize
  omega

/-- Bytes below 0x80 stand for the characters of their numbers and for no others. -/
theorem mem_encodeChar_iff {b : UInt8} (hb : b.toNat < 0x80) {c : Char} :
    b ∈ encodeChar c ↔ c.toNat = b.toNat := by
  constructor
  · intro h
    have hform := form_of_join? (join?_encodeChar c)
    generalize encodeChar c = bs at h hform
    -- All bytes of a longer form are at least 0x80.
    cases hform with
    | one _ hc =>
      rw [List.mem_singleton.mp h]
      exact hc
    | two ha htail =>
      have := (eq_of_tail? htail).2
      simp only [List.mem_cons, List.not_mem_nil, or_false] at h
      rcases h with rfl | rfl
      all_goals omega
    | three ha htail htail' =>
      have := (eq_of_tail? htail).2
      have := (eq_of_tail? htail').2
      simp only [List.mem_cons, List.not_mem_nil, or_false] at h
      rcases h with rfl | rfl | rfl
      all_goals omega
    | four ha htail htail' htail'' =>
      have := (eq_of_tail? htail).2
      have := (eq_of_tail? htail').2
      have := (eq_of_tail? htail'').2
      simp only [List.mem_cons, List.not_mem_nil, or_false] at h
      rcases h with rfl | rfl | rfl | rfl
      all_goals omega
  · intro h
    simp [encodeChar, h, hb]

theorem mem_encode_iff {b : UInt8} (hb : b.toNat < 0x80) {t : Text} :
    b ∈ encode t ↔ ∃ c ∈ t, c.toNat = b.toNat := by
  simp only [encode, List.mem_flatMap, mem_encodeChar_iff hb]

/-! ## §5 Validity -/

/-- The bytes are those of a text. -/
def Valid (bytes : Bytes) : Prop := ∃ t, encode t = bytes

theorem decode_eq_none_iff {bytes : Bytes} : decode bytes = none ↔ ¬ Valid bytes := by
  constructor
  · rintro h ⟨t, rfl⟩
    rw [decode_encode] at h
    cases h
  · intro h
    cases hd : decode bytes with
    | none => rfl
    | some t => exact absurd ⟨t, encode_of_decode hd⟩ h

theorem valid_nil : Valid [] := ⟨[], rfl⟩

/-- An ASCII character stands between two texts, and never inside of another character. -/
theorem valid_append_ascii_iff {c : Char} (hc : c.toNat < 0x80) {front back : Bytes} :
    Valid (front ++ UInt8.ofNat c.toNat :: back) ↔ Valid front ∧ Valid back := by
  have hform : encodeChar c = [UInt8.ofNat c.toNat] := by simp [encodeChar, hc]
  constructor
  · rintro ⟨t, ht⟩
    induction t generalizing front with
    | nil => simp at ht
    | cons d t ih =>
      rw [encode_cons] at ht
      obtain ⟨front, rfl, hrest⟩ | ⟨bytes, hd, hrest⟩ := List.append_eq_append_iff.mp ht
      · obtain ⟨⟨s, hs⟩, hback⟩ := ih hrest
        exact ⟨⟨d :: s, by rw [encode_cons, hs]⟩, hback⟩
      · cases bytes with
        | nil =>
          obtain ⟨_, hback⟩ := @ih [] hrest.symm
          exact ⟨⟨[d], by simpa using hd⟩, hback⟩
        | cons b bytes =>
          obtain ⟨rfl, rfl⟩ := List.cons.inj hrest
          -- Of a character that has this byte it is the only one.
          have hbyte : (UInt8.ofNat c.toNat).toNat = c.toNat :=
            UInt8.toNat_ofNat_of_lt' (show _ < 0x100 by omega)
          have hmem : UInt8.ofNat c.toNat ∈ encodeChar d := by simp [hd]
          have heq : d.toNat = c.toNat := by
            rw [(mem_encodeChar_iff (by omega)).mp hmem, hbyte]
          have hlength : (encodeChar d).length = 1 := by simp [encodeChar, heq, hc]
          rw [hd, List.length_append, List.length_cons] at hlength
          obtain ⟨rfl, rfl⟩ : front = [] ∧ bytes = [] := by
            rw [← List.length_eq_zero_iff, ← List.length_eq_zero_iff]
            omega
          exact ⟨valid_nil, ⟨t, rfl⟩⟩
  · rintro ⟨⟨s, rfl⟩, ⟨t, rfl⟩⟩
    exact ⟨s ++ c :: t, by rw [encode_append, encode_cons, hform, List.singleton_append]⟩

end SensorScript.Utf8
