/-
SensorScript.Proofs.Image.Json — the JSON form of an image is read back.

`Written t v` says that the reader takes exactly `t` off the front of a text and
gives `v`. What follows has to start with a comma or a new line: behind a number
it could otherwise be more of the number. The separators of the layout are those,
so what is written of the parts of an image goes together into what is written of
the image, and `read?_toJson` follows: the JSON form is JSON, and of this image.

  §1 blanks and numbers;
  §2 strings;
  §3 arrays and objects;
  §4 images.
-/
import Mathlib.Data.List.Forall2
import SensorScript.Image.Json
import SensorScript.Json
import SensorScript.Proofs.Text.Numeral

namespace SensorScript.Json

open Image (newLine separated bracketed member jsonChar jsonString)

/-- The text goes on as it may behind a value. -/
def Ends (rest : Text) : Prop := ∀ c ∈ rest.head?, c = ',' ∨ c = '\n'

/-- The text is read as the value, with no more fuel than it has characters. -/
def Written (t : Text) (v : Json) : Prop :=
  ∀ fuel rest, t.length ≤ fuel → Ends rest → value? fuel (t ++ rest) = some (v, rest)

variable {fuel depth : Nat} {c : Char} {t rest : Text} {v : Json}

/-! ## §1 Blanks and numbers -/

theorem skipBlanks_append {blanks : Text} (h : ∀ c ∈ blanks, isBlank c = true) (cs : Text) :
    skipBlanks (blanks ++ cs) = skipBlanks cs :=
  List.dropWhile_append_of_pos h

theorem skipBlanks_of_not_blank (h : isBlank c = false) (cs : Text) :
    skipBlanks (c :: cs) = c :: cs :=
  List.dropWhile_cons_of_neg (by simp [h])

theorem isBlank_newLine : ∀ c ∈ newLine depth, isBlank c = true := by
  intro c hc
  rcases List.mem_cons.mp hc with rfl | hc
  · rfl
  · rw [List.eq_of_mem_replicate hc]
    rfl

theorem ends_newLine (cs : Text) : Ends (newLine depth ++ cs) := by
  intro c hc
  cases hc
  exact .inr rfl

theorem ends_comma (cs : Text) : Ends (',' :: cs) := by
  intro c hc
  cases hc
  exact .inl rfl

/-- A value may have blanks in front. -/
theorem value?_blanks {blanks : Text} (h : ∀ c ∈ blanks, isBlank c = true) (fuel : Nat)
    (cs : Text) : value? fuel (blanks ++ cs) = value? fuel cs := by
  cases fuel with
  | zero => rfl
  | succ fuel => rw [value?, value?, skipBlanks_append h]

/-- Digits end where something else follows. -/
theorem digits?_append {ds : Text} (hne : ds ≠ []) (hds : ∀ c ∈ ds, c.isDigit = true)
    (hrest : ∀ c ∈ rest.head?, c.isDigit = false) : digits? (ds ++ rest) = some (ds, rest) := by
  have htake : rest.takeWhile Char.isDigit = [] := by
    cases rest with
    | nil => rfl
    | cons c rest => exact List.takeWhile_cons_of_neg (by simp [hrest c rfl])
  have hdrop : rest.dropWhile Char.isDigit = rest := by
    cases rest with
    | nil => rfl
    | cons c rest => exact List.dropWhile_cons_of_neg (by simp [hrest c rfl])
  simp only [digits?, List.takeWhile_append_of_pos hds, List.dropWhile_append_of_pos hds, htake,
    hdrop, List.append_nil, if_neg hne]

theorem number?_decimal (n : Nat) (h : Ends rest) :
    number? (Numeral.decimal n ++ rest) = some (.number (some n), rest) := by
  have hdigits : digits? (Numeral.decimal n ++ rest) = some (Numeral.decimal n, rest) := by
    refine digits?_append (Numeral.decimal_ne_nil n) (fun _ => Numeral.isDigit_of_mem_decimal) ?_
    intro c hc
    rcases h c hc with rfl | rfl
    · rfl
    · rfl
  have hinteger : integer? (Numeral.decimal n ++ rest) = some (Numeral.decimal n, rest) := by
    unfold integer?
    rw [hdigits]
    split
    next heq =>
      cases Numeral.eq_nil_of_decimal (congrArg Prod.fst (Option.some.inj heq))
    · rfl
  have hfraction : skipFraction? rest = some (false, rest) := by
    unfold skipFraction?
    split
    · rcases h '.' rfl with h | h <;> cases h
    · rfl
  have hexponent : skipExponent? rest = some (false, rest) := by
    unfold skipExponent?
    split
    next c rest =>
      have hc : ¬ (c = 'e' ∨ c = 'E') := by
        rcases h c rfl with rfl | rfl
        · decide
        · decide
      rw [if_neg hc]
    · rfl
  unfold number?
  split
  next hsign =>
    split at hsign
    next heq =>
      obtain ⟨c, ds, hcs, hc⟩ := Numeral.exists_decimal_cons n
      rw [hcs] at heq
      cases heq
      cases hc
    · cases hsign
      simp only [hinteger, hfraction, hexponent, Numeral.value_decimal, bind, Option.bind]
      rfl

theorem written_number (n : Nat) : Written (Numeral.decimal n) (.number (some n)) := by
  intro fuel rest hfuel hrest
  have hnumber := number?_decimal n hrest
  obtain ⟨c, ds, hcs, hc⟩ := Numeral.exists_decimal_cons n
  have hblank : isBlank c = false := by
    have := Numeral.isDigit_iff.mp hc
    have hne {d : Char} (hd : d.toNat < 0x30) : c ≠ d := by
      rintro rfl
      omega
    simp [isBlank, hne (d := ' ') (by decide), hne (d := '\n') (by decide),
      hne (d := '\t') (by decide), hne (d := '\r') (by decide)]
  rw [hcs] at hfuel hnumber ⊢
  cases fuel with
  | zero => cases hfuel
  | succ fuel =>
    rw [value?, List.cons_append, skipBlanks_of_not_blank hblank]
    split
    case h_7 => exact hnumber
    -- All else that a value may start with is no digit.
    all_goals
      next heq =>
        obtain rfl := List.head_eq_of_cons_eq heq
        cases hc

/-! ## §2 Strings -/

theorem units?_escape {e : Char} (h : e ≠ 'u') (cs : Text) :
    units? ('\\' :: e :: cs) =
      (escape? e).bind fun u => (units? cs).map fun (us, rest) => (u :: us, rest) := by
  rw [units?.eq_def]
  split
  next heq => cases heq
  next heq => cases heq
  next heq =>
    obtain ⟨_, heq⟩ := List.cons.inj heq
    exact absurd (List.head_eq_of_cons_eq heq) h
  next heq =>
    cases heq
    cases escape? e with
    | none => rfl
    | some u => cases units? cs <;> rfl
  next hnot heq =>
    cases heq
    exact (hnot e cs rfl rfl).elim

/-- The ways that a character is written in: one letter for it, its code, or itself. -/
inductive Escaped (c : Char) : Text → Prop
  | letter {e : Char} (h : e ≠ 'u') (means : escape? e = some c.toNat) : Escaped c ['\\', e]
  | code (small : c.toNat < 0x10000) : Escaped c ('\\' :: 'u' :: Numeral.hexPadded 4 c.toNat)
  | plain (quote : c ≠ '"') (slash : c ≠ '\\') (control : ¬ c.toNat < 0x20) : Escaped c [c]

theorem escaped_jsonChar (c : Char) : Escaped c (jsonChar c) := by
  unfold jsonChar
  split_ifs with hquote hslash hback htab hline hfeed hreturn hcontrol
  · rw [hquote]; exact .letter (by decide) rfl
  · rw [hslash]; exact .letter (by decide) rfl
  · rw [hback]; exact .letter (by decide) rfl
  · rw [htab]; exact .letter (by decide) rfl
  · rw [hline]; exact .letter (by decide) rfl
  · rw [hfeed]; exact .letter (by decide) rfl
  · rw [hreturn]; exact .letter (by decide) rfl
  · exact .code (by omega)
  · exact .plain hquote hslash hcontrol

/-- A character is read back, however it is written. -/
theorem Escaped.units? (h : Escaped c t) (cs : Text) :
    Json.units? (t ++ cs) = (Json.units? cs).map fun (us, rest) => (c.toNat :: us, rest) := by
  cases h with
  | letter he hmeans =>
    rw [List.cons_append, List.singleton_append, units?_escape he, hmeans]
    rfl
  | code hsmall =>
    have hlength : (Numeral.hexPadded 4 c.toNat).length = 4 :=
      Numeral.length_hexPadded (by decide) hsmall
    have hdigits : hexUnit? (Numeral.hexPadded 4 c.toNat) = some c.toNat := by
      rw [hexUnit?, if_pos (List.all_eq_true.mpr fun _ => Numeral.isHexDigit_of_mem_hexPadded),
        Numeral.value_hexPadded]
    match Numeral.hexPadded 4 c.toNat, hlength, hdigits with
    | [x, y, z, w], _, hdigits =>
      show Json.units? ('\\' :: 'u' :: x :: y :: z :: w :: cs) = _
      rw [Json.units?, hdigits]
      cases Json.units? cs <;> rfl
  | plain hquote hslash hcontrol =>
    rw [List.singleton_append, units?.eq_def]
    split
    next heq => cases heq
    next heq => exact absurd (List.head_eq_of_cons_eq heq) hquote
    next heq => exact absurd (List.head_eq_of_cons_eq heq) hslash
    next heq => exact absurd (List.head_eq_of_cons_eq heq) hslash
    next heq =>
      cases heq
      rw [if_neg hcontrol]
      cases Json.units? cs <;> rfl

/-- No character is half of one. -/
theorem ofUnits?_toNat (t : Text) : ofUnits? (t.map Char.toNat) = some t := by
  have hwhole (c : Char) : ¬ (0xD800 ≤ c.toNat ∧ c.toNat < 0xE000) := by
    have := c.valid
    simp only [UInt32.isValidChar, Nat.isValidChar] at this
    show ¬ (0xD800 ≤ c.val.toNat ∧ c.val.toNat < 0xE000)
    omega
  induction t with
  | nil => rfl
  | cons c t ih =>
    cases t with
    | nil =>
      show (if 0xD800 ≤ c.toNat ∧ c.toNat < 0xE000 then none else some [Char.ofNat c.toNat]) = _
      rw [if_neg (hwhole c), Char.ofNat_toNat]
    | cons d t =>
      have hc := hwhole c
      rw [List.map_cons, List.map_cons, ofUnits?, if_neg (by omega), if_neg hc, ← List.map_cons,
        ih, Char.ofNat_toNat]
      rfl

theorem string?_flatMap_jsonChar (t rest : Text) :
    string? (t.flatMap jsonChar ++ '"' :: rest) = some (some t, rest) := by
  have hunits : units? (t.flatMap jsonChar ++ '"' :: rest) = some (t.map Char.toNat, rest) := by
    induction t with
    | nil => rfl
    | cons c t ih => rw [List.flatMap_cons, List.append_assoc, (escaped_jsonChar c).units?, ih]; rfl
  rw [string?, hunits]
  show some (ofUnits? (t.map Char.toNat), rest) = _
  rw [ofUnits?_toNat]

theorem written_string (t : Text) : Written (jsonString t) (.string (some t)) := by
  intro fuel rest hfuel _
  cases fuel with
  | zero => cases hfuel
  | succ fuel =>
    have htext : jsonString t ++ rest = '"' :: (t.flatMap jsonChar ++ '"' :: rest) := by
      simp [jsonString]
    rw [htext, value?, skipBlanks_of_not_blank rfl]
    show (string? _).map _ = _
    rw [string?_flatMap_jsonChar]
    rfl

/-! ## §3 Arrays and objects -/

/-- What stands behind the first of some members, up to the closing bracket. -/
def behind (depth : Nat) (ts : List Text) (tail : Text) : Text :=
  if ts = [] then tail else ',' :: (separated depth ts ++ tail)

theorem separated_cons_append (depth : Nat) (t : Text) (ts : List Text) (tail : Text) :
    separated depth (t :: ts) ++ tail = newLine depth ++ (t ++ behind depth ts tail) := by
  cases ts with
  | nil => simp [separated, behind]
  | cons t' ts => simp [separated, behind]

theorem ends_behind {ts : List Text} {tail : Text} (h : Ends tail) :
    Ends (behind depth ts tail) := by
  unfold behind
  split
  · exact h
  · exact ends_comma _

/-- Between these brackets the reader takes members that are written as `R` says: one
on a new line and, behind a comma, the next. -/
structure Brackets {α : Type} (opening closing : Char) (read : Nat → Text → Option (List α × Text))
    (R : Text → α → Prop) (wrap : List α → Json) : Prop where
  not_blank : isBlank closing = false
  empty (fuel : Nat) (rest : Text) :
    value? (fuel + 1) (opening :: closing :: rest) = some (wrap [], rest)
  opens {fuel : Nat} {cs : Text} (h : ∀ rest, skipBlanks cs ≠ closing :: rest) :
    value? (fuel + 1) (opening :: cs) = (read fuel cs).map fun (as, rest) => (wrap as, rest)
  ne_closing {t rest : Text} {a : α} (written : R t a) (ends : Ends rest) (cs : Text) :
    skipBlanks (t ++ rest) ≠ closing :: cs
  more {fuel depth : Nat} {t rest cs : Text} {a : α} (written : R t a) (enough : t.length ≤ fuel)
      (ends : Ends rest) (next : skipBlanks rest = ',' :: cs) :
    read (fuel + 1) (newLine depth ++ (t ++ rest)) =
      (read fuel cs).map fun (as, cs) => (a :: as, cs)
  last {fuel depth : Nat} {t rest cs : Text} {a : α} (written : R t a) (enough : t.length ≤ fuel)
      (ends : Ends rest) (next : skipBlanks rest = closing :: cs) :
    read (fuel + 1) (newLine depth ++ (t ++ rest)) = some ([a], cs)

namespace Brackets

variable {α : Type} {opening closing : Char} {read : Nat → Text → Option (List α × Text)}
  {R : Text → α → Prop} {wrap : List α → Json} {ts : List Text} {as : List α}

/-- Members are read one after the other, up to the closing bracket. -/
theorem read_separated (h : Brackets opening closing read R wrap) (hts : List.Forall₂ R ts as)
    (hne : ts ≠ []) {outer : Nat} {rest : Text} (hfuel : (separated depth ts).length < fuel) :
    read fuel (separated depth ts ++ (newLine outer ++ closing :: rest)) = some (as, rest) := by
  have hends : Ends (newLine outer ++ closing :: rest) := ends_newLine _
  induction hts generalizing fuel with
  | nil => exact absurd rfl hne
  | @cons t a ts as ht hts ih =>
    cases fuel with
    | zero => cases hfuel
    | succ fuel =>
      have hlength := congrArg List.length (separated_cons_append depth t ts [])
      simp only [List.append_nil, List.length_append, newLine, List.length_cons] at hlength
      rw [separated_cons_append]
      cases hts with
      | nil =>
        refine h.last ht (by omega) (ends_behind hends) ?_
        rw [behind, if_pos rfl, skipBlanks_append isBlank_newLine,
          skipBlanks_of_not_blank h.not_blank]
      | @cons t' _ ts _ ht' hts =>
        have hnext : skipBlanks (behind depth (t' :: ts) (newLine outer ++ closing :: rest)) =
            ',' :: (separated depth (t' :: ts) ++ (newLine outer ++ closing :: rest)) := by
          rw [behind, if_neg (List.cons_ne_nil _ _), skipBlanks_of_not_blank rfl]
        rw [behind, if_neg (List.cons_ne_nil _ _), List.length_cons, List.append_nil] at hlength
        rw [h.more ht (by omega) (ends_behind hends) hnext, ih (List.cons_ne_nil _ _) (by omega)]
        rfl

theorem written (h : Brackets opening closing read R wrap) (hts : List.Forall₂ R ts as)
    (depth : Nat) : Written (bracketed depth opening closing ts) (wrap as) := by
  intro fuel rest hfuel hrest
  unfold bracketed at hfuel ⊢
  cases fuel with
  | zero => split at hfuel <;> simp at hfuel
  | succ fuel =>
    cases hts with
    | nil => exact h.empty fuel rest
    | @cons t a ts as ht hts =>
      rw [if_neg (List.cons_ne_nil _ _)] at hfuel ⊢
      simp only [List.length_append, List.length_singleton] at hfuel
      have hopens (cs : Text) :
          skipBlanks (separated (depth + 1) (t :: ts) ++ (newLine depth ++ closing :: rest)) ≠
            closing :: cs := by
        rw [separated_cons_append, skipBlanks_append isBlank_newLine]
        exact h.ne_closing ht (ends_behind (ends_newLine _)) cs
      simp only [List.append_assoc, List.singleton_append]
      rw [List.cons_append, h.opens hopens,
        h.read_separated (.cons ht hts) (List.cons_ne_nil _ _) (show _ < fuel by omega)]
      rfl

end Brackets

/-- The text is read as a named member of an object. -/
def WrittenMember (t : Text) (m : Option Text × Json) : Prop :=
  ∃ (name : String) (value : Text) (v : Json),
    t = member name value ∧ m = (some name.toList, v) ∧ Written value v

theorem array_brackets : Brackets '[' ']' items? Written array where
  not_blank := rfl
  empty _ _ := rfl
  opens := by
    -- Only the closing bracket is looked for before, and `h` excludes it.
    intro fuel cs h
    simp only [value?, skipBlanks_of_not_blank (c := '[') rfl]
  ne_closing := by
    -- No value starts with the bracket.
    intro t rest v ht hrest cs heq
    have hvalue := ht (t.length + 1) rest (Nat.le_succ _) hrest
    rw [value?, heq] at hvalue
    cases hvalue
  more := by
    intro fuel depth t rest cs v ht hfuel hrest hnext
    simp only [items?, value?_blanks isBlank_newLine, ht fuel rest hfuel hrest, hnext, bind,
      Option.bind]
  last := by
    intro fuel depth t rest cs v ht hfuel hrest hnext
    simp only [items?, value?_blanks isBlank_newLine, ht fuel rest hfuel hrest, hnext, bind,
      Option.bind]

/-- What is left of a member when the blanks and the opening quote are taken off. -/
theorem skipBlanks_member (depth : Nat) (name : String) (value rest : Text) :
    skipBlanks (newLine depth ++ (member name value ++ rest)) =
      '"' :: (name.toList.flatMap jsonChar ++ '"' :: ':' :: ' ' :: (value ++ rest)) := by
  rw [skipBlanks_append isBlank_newLine]
  simp [member, jsonString, skipBlanks_of_not_blank (c := '"') rfl]

/-- The value of a member is read behind its colon. -/
theorem Written.value?_member {name : String} {value : Text} (h : Written value v)
    (hfuel : (member name value).length ≤ fuel) (hrest : Ends rest) :
    value? fuel (' ' :: (value ++ rest)) = some (v, rest) := by
  have hlength : value.length ≤ fuel := by
    simp only [member, List.length_append] at hfuel
    omega
  have hblank : ∀ c ∈ [' '], isBlank c = true := List.forall_mem_singleton.mpr rfl
  rw [← List.singleton_append, value?_blanks hblank, h fuel rest hlength hrest]

theorem object_brackets : Brackets '{' '}' members? WrittenMember object where
  not_blank := rfl
  empty _ _ := rfl
  opens := by
    -- Only the closing bracket is looked for before, and `h` excludes it.
    intro fuel cs h
    simp only [value?, skipBlanks_of_not_blank (c := '{') rfl]
  ne_closing := by
    rintro _ rest _ ⟨name, value, v, rfl, rfl, _⟩ _ cs heq
    have hquote : skipBlanks (member name value ++ rest) = member name value ++ rest :=
      skipBlanks_of_not_blank rfl _
    rw [hquote] at heq
    exact absurd (List.head_eq_of_cons_eq heq) (by decide)
  more := by
    rintro fuel depth _ rest cs _ ⟨name, value, v, rfl, rfl, hv⟩ hfuel hrest hnext
    simp only [members?, skipBlanks_member, string?_flatMap_jsonChar,
      skipBlanks_of_not_blank (c := ':') rfl, hv.value?_member hfuel hrest, hnext, bind,
      Option.bind]
  last := by
    rintro fuel depth _ rest cs _ ⟨name, value, v, rfl, rfl, hv⟩ hfuel hrest hnext
    simp only [members?, skipBlanks_member, string?_flatMap_jsonChar,
      skipBlanks_of_not_blank (c := ':') rfl, hv.value?_member hfuel hrest, hnext, bind,
      Option.bind]

end SensorScript.Json

namespace SensorScript.Image

open Json (Written WrittenMember written_number written_string array_brackets object_brackets)

/-! ## §4 Images -/

/-- The value that a word is written as. -/
def wordJson (w : MachineWord) : Json :=
  .object [
    (some "part1".toList, .number (some w.part1.toNat)),
    (some "part2".toList, .number (some w.part2.toNat))]

/-- The value that a function is written as. -/
def functionJson (f : ImageFunction) : Json :=
  .object [
    (some "name".toList, .string (some f.name)),
    (some "start".toList, .number (some f.start.toNat)),
    (some "end".toList, .number (some f.stop.toNat))]

/-- The value that an image is written as. -/
def json (image : Image) : Json :=
  .object [
    (some "instructions".toList, .array (image.words.map wordJson)),
    (some "functions".toList, .array (image.functions.map functionJson))]

theorem writtenMember {name : String} {value : Text} {v : Json} (h : Written value v) :
    WrittenMember (member name value) (some name.toList, v) :=
  ⟨name, value, v, rfl, rfl, h⟩

theorem written_jsonWord (w : MachineWord) : Written (jsonWord w) (wordJson w) :=
  object_brackets.written
    (.cons (writtenMember (written_number _)) (.cons (writtenMember (written_number _)) .nil)) 2

theorem written_jsonFunction (f : ImageFunction) : Written (jsonFunction f) (functionJson f) :=
  object_brackets.written
    (.cons (writtenMember (written_string _)) (.cons (writtenMember (written_number _))
      (.cons (writtenMember (written_number _)) .nil))) 2

/-- Items that are each written as a value make an array. -/
theorem written_items {α : Type} {write : α → Text} {value : α → Json}
    (h : ∀ a, Written (write a) (value a)) (as : List α) (depth : Nat) :
    Written (bracketed depth '[' ']' (as.map write)) (.array (as.map value)) := by
  refine array_brackets.written ?_ depth
  rw [List.forall₂_map_left_iff, List.forall₂_map_right_iff]
  exact List.forall₂_same.mpr fun a _ => h a

theorem written_toJson (image : Image) : Written image.toJson image.json :=
  object_brackets.written
    (.cons (writtenMember (written_items written_jsonWord image.words 1))
      (.cons (writtenMember (written_items written_jsonFunction image.functions 1)) .nil)) 0

/-- The JSON form of an image is JSON, and what it is read as has all of the image. -/
theorem read?_toJson (image : Image) : Json.read? image.toJson = some image.json := by
  have hvalue := written_toJson image (2 * image.toJson.length + 2) [] (by omega) nofun
  rw [List.append_nil] at hvalue
  rw [Json.read?, hvalue]
  rfl

theorem wordJson_injective : Function.Injective wordJson := by
  intro w w' h
  simp only [wordJson, Json.object.injEq, List.cons.injEq, Prod.mk.injEq, Json.number.injEq,
    Option.some.injEq, UInt32.toNat_inj, true_and, and_true] at h
  cases w
  cases w'
  exact MachineWord.mk.injEq .. ▸ h

theorem functionJson_injective : Function.Injective functionJson := by
  intro f f' h
  simp only [functionJson, Json.object.injEq, List.cons.injEq, Prod.mk.injEq, Json.number.injEq,
    Json.string.injEq, Option.some.injEq, UInt32.toNat_inj, true_and, and_true] at h
  cases f
  cases f'
  exact ImageFunction.mk.injEq .. ▸ h

theorem json_injective : Function.Injective json := by
  intro image other h
  simp only [json, Json.object.injEq, List.cons.injEq, Prod.mk.injEq, Json.array.injEq, true_and,
    and_true] at h
  obtain ⟨hwords, hfunctions⟩ := h
  cases image
  cases other
  rw [mk.injEq]
  exact ⟨wordJson_injective.list_map hwords, functionJson_injective.list_map hfunctions⟩

/-- No two images have one JSON form. -/
theorem toJson_injective : Function.Injective toJson := by
  intro image other h
  have hread := read?_toJson image
  rw [h, read?_toJson other] at hread
  exact (json_injective (Option.some.inj hread)).symm

end SensorScript.Image
