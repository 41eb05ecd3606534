/-
SensorScript.Proofs.Program.Returns — carriage returns change nothing, except
the line of a function that is never closed and whether there is a line at all.

The lines of a source are those of the source without carriage returns. Only
carriage returns behind the last newline make a line more, which is empty (§1).
An empty line leaves a draft as it is, but at the end of the source it counts
(§2): a function left open is an error of the last line. And a line is split into
words, even an empty one. When no list can be reserved for them, carriage returns
alone are a source that panics, while one without a line is assembled (§4).
-/
import SensorScript.Proofs.Except
import SensorScript.Proofs.Source.Segments
import SensorScript.Proofs.Program.Attempt
import SensorScript.Proofs.Program.LastError

namespace SensorScript

variable {source rest : Bytes} {ended : List Bytes}

/-! ## §1 Lines -/

namespace Source

/-- Behind the last newline there are carriage returns and nothing else. -/
def EndsInReturns (source : Bytes) : Prop :=
  ∃ front n, source = front ++ newline :: List.replicate (n + 1) carriageReturn

/-- A rest of carriage returns alone. -/
def Blank (rest : Bytes) : Prop := rest ≠ [] ∧ stripReturns rest = []

theorem blank_iff : Blank rest ↔ ∃ n, rest = List.replicate (n + 1) carriageReturn := by
  constructor
  · rintro ⟨hne, hstrip⟩
    have hall : ∀ b ∈ rest, b = carriageReturn := by simpa [stripReturns] using hstrip
    obtain ⟨n, hn⟩ := Nat.exists_eq_succ_of_ne_zero (mt List.length_eq_zero_iff.mp hne)
    exact ⟨n, List.eq_replicate_iff.mpr ⟨hn, hall⟩⟩
  · rintro ⟨n, rfl⟩
    exact ⟨by simp, by simp [stripReturns]⟩

theorem Cut.exists_front (h : Cut source ended rest) (hended : ended ≠ []) :
    ∃ front, source = front ++ newline :: rest := by
  induction h with
  | rest _ => exact absurd rfl hended
  | @line s source ended rest _ hcut ih =>
    by_cases hnil : ended = []
    · subst hnil
      cases hcut
      exact ⟨s, rfl⟩
    · obtain ⟨front, rfl⟩ := ih hnil
      exact ⟨s ++ newline :: front, by rw [List.append_assoc, List.cons_append]⟩

theorem Cut.endsInReturns_iff (h : Cut source ended rest) :
    EndsInReturns source ↔ ended ≠ [] ∧ Blank rest := by
  rw [blank_iff]
  constructor
  · rintro ⟨front, n, rfl⟩
    have hlast : newline ∉ List.replicate (n + 1) carriageReturn := by
      simp [newline, carriageReturn]
    have hsplit := h.splitOn_eq
    rw [splitOn_append_newline, List.splitOn_eq_singleton hlast] at hsplit
    obtain ⟨hended, hrest⟩ := List.append_inj' hsplit rfl
    exact ⟨hended ▸ List.splitOn_ne_nil newline front, n, (List.singleton_inj.mp hrest).symm⟩
  · rintro ⟨hended, n, hrest⟩
    obtain ⟨front, hfront⟩ := h.exists_front hended
    exact ⟨front, n, hrest ▸ hfront⟩

theorem readLine_stripReturns (max : Nat) (s : Bytes) :
    readLine max (stripReturns s) = readLine max s := by
  rw [readLine, readLine, stripReturns_stripReturns]

theorem unended_stripReturns (h : ¬ Blank rest) :
    unended (stripReturns rest) = (unended rest).map stripReturns := by
  unfold unended
  by_cases hrest : rest = []
  · simp [hrest, stripReturns]
  · have hstrip : stripReturns rest ≠ [] := fun hstrip => h ⟨hrest, hstrip⟩
    rw [if_neg hstrip, if_neg hrest, List.map_singleton]

/-- Carriage returns alone behind the last newline make an empty line more. -/
theorem Cut.lines_eq (h : Cut source ended rest) (max : Nat) :
    (¬ Blank rest → lines max source = lines max (Source.stripReturns source)) ∧
    (Blank rest → lines max source = lines max (Source.stripReturns source) ++ [.ok []]) := by
  have hread : (ended.map Source.stripReturns).map (readLine max) = ended.map (readLine max) := by
    rw [List.map_map]
    exact List.map_congr_left fun s _ => readLine_stripReturns max s
  rw [lines, lines, h.segments_eq, h.stripReturns.segments_eq, List.map_append, List.map_append,
    hread]
  constructor
  · intro hblank
    rw [unended_stripReturns hblank, List.map_map]
    congr 1
    exact List.map_congr_left fun s _ => (readLine_stripReturns max s).symm
  · rintro ⟨hne, hstrip⟩
    have hempty : readLine max rest = .ok [] := by
      rw [← readLine_stripReturns, hstrip]
      rfl
    simp [unended, hne, hstrip, hempty]

/-- Carriage returns alone are one empty line. -/
theorem lines_of_blank (h : Blank source) (max : Nat) : lines max source = [.ok []] := by
  have hline : newline ∉ source := by
    obtain ⟨n, rfl⟩ := blank_iff.mp h
    simp [newline, carriageReturn]
  rw [((Cut.rest hline).lines_eq max).2 h, h.2, lines_nil, List.nil_append]

/-- The first line of any other source stays the first. -/
theorem head?_lines_stripReturns (h : ¬ Blank source) (max : Nat) :
    (lines max (stripReturns source)).head? = (lines max source).head? := by
  by_cases hstrip : stripReturns source = []
  · have hsource : source = [] := by
      by_contra hne
      exact h ⟨hne, hstrip⟩
    rw [hsource]
    rfl
  · obtain ⟨ended, rest, hcut⟩ := exists_cut source
    obtain ⟨hsame, hmore⟩ := hcut.lines_eq max
    by_cases hblank : Blank rest
    · rw [hmore hblank, List.head?_append_of_ne_nil _ (mt lines_eq_nil_iff.mp hstrip)]
    · rw [hsame hblank]

end Source

/-! ## §2 Drafts -/

namespace Draft

theorem readLine_empty (d : Draft) (line : Nat) : d.readLine line (.ok []) = .ok d := rfl

/-- An empty line behind all others is of no consequence. -/
theorem readLines_concat_empty (d : Draft) (line : Nat)
    (texts : List (Except Source.LineError Text)) :
    d.readLines line (texts ++ [.ok []]) = d.readLines line texts := by
  induction texts generalizing d line with
  | nil => exact readLines_cons_ok (readLine_empty d line) []
  | cons text texts ih =>
    rw [List.cons_append]
    cases h : d.readLine line text with
    | error e => rw [readLines_cons_error h, readLines_cons_error h]
    | ok d' => rw [readLines_cons_ok h, readLines_cons_ok h, ih]

theorem readOperation_ne_unclosed (limits : Limits) (op : Opcode) (arguments : List Text)
    (name : Text) : readOperation limits op arguments ≠ .error (.unclosedFunction name) := by
  intro h
  unfold readOperation at h
  split at h
  · cases h
  split at h
  · cases h
  simp only [bind_eq_error_iff, mapError_eq_error_iff] at h
  obtain ⟨_, _, h⟩ | ⟨_, _, ⟨_, _, h⟩ | ⟨_, _, h⟩⟩ := h
  all_goals cases h

/-- No statement is refused because of a function that is not closed. -/
theorem apply_ne_unclosed (d : Draft) (line : Nat) (s : Statement) (name : Text) :
    d.apply line s ≠ .error (.unclosedFunction name) := by
  intro h
  unfold apply at h
  split at h
  · cases h
  next op arguments =>
    unfold addInstruction at h
    split at h
    · cases h
    simp only [bind_eq_error_iff, mapError_eq_error_iff] at h
    obtain h | ⟨_, _, ⟨_, _, h⟩ | ⟨_, _, h⟩⟩ := h
    · exact readOperation_ne_unclosed _ op arguments name h
    all_goals cases h
  next word =>
    unfold openFunction at h
    split at h
    · cases h
    simp only [bind_eq_error_iff, mapError_eq_error_iff] at h
    obtain ⟨_, _, h⟩ | ⟨_, _, ⟨_, _, h⟩ | ⟨_, _, h⟩⟩ := h
    all_goals cases h
  next =>
    unfold closeFunction at h
    split at h
    all_goals cases h
  · cases h
  next word =>
    unfold addLabel at h
    split at h
    · cases h
    simp only [bind_eq_error_iff, mapError_eq_error_iff] at h
    obtain ⟨_, _, h⟩ | ⟨_, _, ⟨_, _, h⟩ | ⟨_, _, h⟩⟩ := h
    all_goals cases h
  all_goals cases h

/-- No line is refused because of a function that is not closed. -/
theorem readLine_ne_unclosed (d : Draft) (line : Nat) (text : Except Source.LineError Text)
    (name : Text) : d.readLine line text ≠ .error (.unclosedFunction name) := by
  intro h
  simp only [readLine, bind_eq_error_iff, mapError_eq_error_iff] at h
  obtain ⟨_, _, h⟩ | ⟨_, _, ⟨_, _, h⟩ | ⟨words, _, h⟩⟩ := h
  · cases h
  · cases h
  · exact apply_ne_unclosed d line _ name h

theorem readLines_ne_unclosed {d d' : Draft} {line : Nat}
    {texts : List (Except Source.LineError Text)} {error : Located}
    (h : d.readLines line texts = (d', .error error)) (name : Text) :
    error.error ≠ .unclosedFunction name := by
  induction texts generalizing d line with
  | nil => cases h
  | cons text texts ih =>
    cases hline : d.readLine line text with
    | error e =>
      rw [readLines_cons_error hline] at h
      cases h
      rintro rfl
      exact readLine_ne_unclosed _ _ text name hline
    | ok d₁ =>
      rw [readLines_cons_ok hline] at h
      exact ih h

section ReadSource

variable {d d' : Draft} {source : Bytes}

theorem readSource_of_error {error : Located}
    (h : d.readLines 1 (Source.lines d.limits.maxLineLen source) = (d', .error error)) :
    d.readSource source = (d', .error error) := by
  simp only [readSource, h]

theorem readSource_of_closed
    (h : d.readLines 1 (Source.lines d.limits.maxLineLen source) = (d', .ok ()))
    (hclosed : d'.openName? = none) : d.readSource source = (d', .ok ()) := by
  simp only [readSource, h, hclosed]

theorem readSource_of_open {name : Text}
    (h : d.readLines 1 (Source.lines d.limits.maxLineLen source) = (d', .ok ()))
    (hopen : d'.openName? = some name) :
    d.readSource source =
      (d', .error ⟨(Source.lines d.limits.maxLineLen source).length, .unclosedFunction name⟩) := by
  simp only [readSource, h, hopen]

/-- Reading a source and reading it without carriage returns comes to the same. Only the line of a
function that is never closed is one more when there are carriage returns behind the last
newline. -/
theorem readSource_stripReturns (hclosed : d.openName? = none) (source : Bytes) :
    (d.readSource source = d.readSource (Source.stripReturns source) ∧
      ¬ (Source.EndsInReturns source ∧
        ∃ line name, (d.readSource source).2 = .error ⟨line, .unclosedFunction name⟩)) ∨
    ∃ d' line name, Source.EndsInReturns source ∧
      d.readSource source = (d', .error ⟨line + 1, .unclosedFunction name⟩) ∧
      d.readSource (Source.stripReturns source) = (d', .error ⟨line, .unclosedFunction name⟩) := by
  obtain ⟨ended, rest, hcut⟩ := Source.exists_cut source
  obtain ⟨hsame, hmore⟩ := hcut.lines_eq d.limits.maxLineLen
  by_cases hblank : Source.Blank rest
  · have hlines := hmore hblank
    generalize hread : d.readLines 1
      (Source.lines d.limits.maxLineLen (Source.stripReturns source)) = read
    obtain ⟨d', result⟩ := read
    have hread' : d.readLines 1 (Source.lines d.limits.maxLineLen source) = (d', result) := by
      rw [hlines, readLines_concat_empty, hread]
    cases result with
    | error error =>
      rw [readSource_of_error hread, readSource_of_error hread']
      refine .inl ⟨rfl, ?_⟩
      rintro ⟨_, line, name, h⟩
      cases h
      exact readLines_ne_unclosed hread name rfl
    | ok _ =>
      cases hopen : d'.openName? with
      | none =>
        rw [readSource_of_closed hread hopen, readSource_of_closed hread' hopen]
        refine .inl ⟨rfl, ?_⟩
        rintro ⟨_, line, name, h⟩
        cases h
      | some name =>
        -- Without a newline there would be no line at all, and nothing that opens a function.
        have hended : ended ≠ [] := by
          rintro rfl
          cases hcut
          rw [hblank.2] at hread
          cases hread
          cases hclosed.symm.trans hopen
        refine .inr ⟨d', _, name, hcut.endsInReturns_iff.mpr ⟨hended, hblank⟩, ?_,
          readSource_of_open hread hopen⟩
        rw [readSource_of_open hread' hopen, hlines, List.length_append]
        rfl
  · have hends : ¬ Source.EndsInReturns source := fun h => hblank (hcut.endsInReturns_iff.mp h).2
    refine .inl ⟨?_, fun h => hends h.1⟩
    rw [readSource, readSource, hsame hblank]

end ReadSource

end Draft

/-! ## §3 Whole scripts -/

namespace Program

variable {limits : Limits} {p : Program} {source source' : Bytes} {e : AssembleError}

/-- What a source is checked as only depends on what it is read as. -/
theorem check_congr
    (h : (Draft.empty limits).readSource source = (Draft.empty limits).readSource source') :
    check source limits = check source' limits := by
  unfold check
  cases hnew : new limits with
  | error e => rfl
  | ok p =>
    obtain ⟨_, rfl⟩ := new_eq_ok_iff.mp hnew
    have hparse : parse { draft := .empty limits } source =
        parse { draft := .empty limits } source' := by
      simp only [parse, inStage, h]
    simp only [bind, Except.bind, hparse]

theorem parse_of_readSource_error (h : new limits = .ok p) {d : Draft} {error : Draft.Located}
    (hread : (Draft.empty limits).readSource source = (d, .error error)) :
    (p.parse source).2 = .error (.parse error.line error.error) := by
  obtain ⟨_, rfl⟩ := new_eq_ok_iff.mp h
  simp only [parse, inStage, Call.stage, if_true, hread]
  rfl

theorem parse_of_readSource_ok (h : new limits = .ok p) {d : Draft}
    (hread : (Draft.empty limits).readSource source = (d, .ok ())) :
    (p.parse source).2 = .ok () := by
  obtain ⟨_, rfl⟩ := new_eq_ok_iff.mp h
  simp only [parse, inStage, Call.stage, if_true, hread]

theorem line?_of_link_error (h : p.link.2 = .error e) : e.line? = none := by
  have hanswer : p.answer .link = .error e := map_eq_error_iff.mpr h
  simpa using isSome_line?_iff hanswer

theorem line?_of_encode_error (h : p.encode.2 = .error e) : e.line? = none := by
  have hanswer : p.answer .encode = .error e := map_eq_error_iff.mpr h
  simpa using isSome_line?_iff hanswer

theorem assembleProgram_of_check_error {e : LimitsError} (h : limits.check = .error e)
    (source : Bytes) : assembleProgram source limits = .error (.limits e) := by
  rw [assembleProgram, check, new, h]
  rfl

/-- A source that is not read is refused for the line that reading it stops on. -/
theorem assembleProgram_of_readSource_error (hvalid : limits.Valid) {d : Draft}
    {error : Draft.Located}
    (hread : (Draft.empty limits).readSource source = (d, .error error)) :
    assembleProgram source limits = .error (.parse error.line error.error) := by
  have hnew : new limits = .ok { draft := .empty limits } := new_eq_ok_iff.mpr ⟨hvalid, rfl⟩
  have hcheck : check source limits = .error (.parse error.line error.error) := by
    unfold check
    rw [hnew]
    have hparse := parse_of_readSource_error hnew hread
    simp only [bind, Except.bind]
    split
    next hresult => rw [hresult] at hparse; cases hparse; rfl
    next hresult => rw [hresult] at hparse; cases hparse
  rw [assembleProgram, hcheck]
  rfl

/-- A source that is read is not refused for any of its lines. -/
theorem line?_of_readSource_ok {d : Draft}
    (hread : (Draft.empty limits).readSource source = (d, .ok ()))
    (h : assembleProgram source limits = .error e) : e.line? = none := by
  obtain h | ⟨p, _, h⟩ := bind_eq_error_iff.mp h
  · obtain h | ⟨p, hnew, h⟩ := bind_eq_error_iff.mp h
    · simp only [new, bind_eq_error_iff, mapError_eq_error_iff] at h
      obtain ⟨_, _, rfl⟩ | ⟨_, _, h⟩ := h
      · rfl
      · cases h
    · have hparse := parse_of_readSource_ok hnew hread
      split at h
      next hresult => rw [hresult] at hparse; cases hparse
      next =>
        split at h
        next hlink => cases h; exact line?_of_link_error (congrArg Prod.snd hlink)
        next => cases h
  · split at h
    next hencode => cases h; exact line?_of_encode_error (congrArg Prod.snd hencode)
    next => cases h

/-- A source and the same source without its carriage returns are assembled to the same program and
image, or refused with the same error. Only when a function is never closed, and there are carriage
returns and nothing else behind the last newline, the error has a line that is one more. -/
theorem assembleProgram_stripReturns (limits : Limits) (source : Bytes) :
    (∃ r, assembleProgram source limits = .ok r ∧
        assembleProgram (Source.stripReturns source) limits = .ok r) ∨
    (∃ e, assembleProgram source limits = .error e ∧
        assembleProgram (Source.stripReturns source) limits = .error e ∧
        ¬ (Source.EndsInReturns source ∧ ∃ line name, e = .parse line (.unclosedFunction name))) ∨
    ∃ line name, Source.EndsInReturns source ∧
      assembleProgram source limits = .error (.parse (line + 1) (.unclosedFunction name)) ∧
      assembleProgram (Source.stripReturns source) limits =
        .error (.parse line (.unclosedFunction name)) := by
  by_cases hvalid : limits.Valid
  · obtain ⟨hsame, hends⟩ | ⟨d, line, name, hends, hread, hread'⟩ :=
      Draft.readSource_stripReturns (d := .empty limits) rfl source
    · have hassemble : assembleProgram source limits =
          assembleProgram (Source.stripReturns source) limits := by
        rw [assembleProgram, check_congr hsame, ← assembleProgram]
      rw [← hassemble]
      cases hresult : assembleProgram source limits with
      | ok r => exact .inl ⟨r, rfl, rfl⟩
      | error e =>
        refine .inr (.inl ⟨e, rfl, rfl, ?_⟩)
        rintro ⟨hreturns, line, name, rfl⟩
        refine hends ⟨hreturns, line, name, ?_⟩
        cases hread : (Draft.empty limits).readSource source with
        | mk d result =>
          cases result with
          | error error =>
            obtain ⟨_, _⟩ := error
            have heq := assembleProgram_of_readSource_error hvalid hread
            cases hresult.symm.trans heq
            rfl
          | ok _ => cases line?_of_readSource_ok hread hresult
    · exact .inr (.inr ⟨line, name, hends, assembleProgram_of_readSource_error hvalid hread,
        assembleProgram_of_readSource_error hvalid hread'⟩)
  · cases hcheck : limits.check with
    | ok _ => exact absurd (Limits.check_eq_ok_iff.mp hcheck) hvalid
    | error e =>
      have hrefused := assembleProgram_of_check_error hcheck
      refine .inr (.inl ⟨.limits e, hrefused source, hrefused _, ?_⟩)
      rintro ⟨_, _, _, h⟩
      cases h

/-- A source without a line is assembled, to nothing. -/
theorem assembleProgram_nil (hvalid : limits.Valid) :
    ∃ p, assembleProgram [] limits = .ok (p, ⟨[], []⟩) := by
  rw [assembleProgram, check, new_eq_ok_iff.mpr ⟨hvalid, rfl⟩]
  exact ⟨_, rfl⟩

end Program

/-! ## §4 Panics -/

namespace Attempt

variable {limits : Limits} {source : Bytes}

theorem StartsWithPanic.of_head? {lines lines' : List (Except Source.LineError Text)}
    (hhead : lines.head? = lines'.head?) (h : StartsWithPanic limits lines) :
    StartsWithPanic limits lines' := by
  obtain ⟨hlarge, text, rest, rfl⟩ := h
  obtain ⟨rest, hlines⟩ := List.head?_eq_some_iff.mp hhead.symm
  exact ⟨hlarge, text, rest, hlines⟩

theorem not_panics_nil : ¬ Panics limits [] := by
  rintro ⟨_, _, text, rest, hlines⟩
  cases hlines

theorem panics_of_blank (hvalid : limits.Valid) (hlarge : 2 ^ 59 ≤ limits.maxWordsPerLine)
    (h : Source.Blank source) : Panics limits source :=
  ⟨hvalid, hlarge, [], [], Source.lines_of_blank h _⟩

/-- Without its carriage returns a source panics as before, unless it was nothing else. -/
theorem panics_stripReturns_iff (h : ¬ Source.Blank source) :
    Panics limits (Source.stripReturns source) ↔ Panics limits source := by
  have hhead := Source.head?_lines_stripReturns h limits.maxLineLen
  constructor
  · exact fun hpanics => ⟨hpanics.valid, hpanics.start.of_head? hhead⟩
  · exact fun hpanics => ⟨hpanics.valid, hpanics.start.of_head? hhead.symm⟩

theorem not_panics_stripReturns (h : ¬ Panics limits source) :
    ¬ Panics limits (Source.stripReturns source) := by
  by_cases hblank : Source.Blank source
  · rw [hblank.2]
    exact not_panics_nil
  · exact mt (panics_stripReturns_iff hblank).mp h

/-- A source and the same source without its carriage returns panic alike, except that carriage
returns alone are a line, for which there may be no list of words. When they do not panic they are
assembled to the same program and image, or refused with the same error. Only when a function is
never closed, and there are carriage returns and nothing else behind the last newline, the error has
a line that is one more. -/
theorem assembled_without_returns (limits : Limits) (source : Bytes) :
    let attempt := assembleProgram source limits
    let stripped := assembleProgram (Source.stripReturns source) limits
    (Panics limits source →
      attempt = .error .capacityOverflow ∧
      (¬ Source.Blank source → stripped = .error .capacityOverflow) ∧
      (Source.Blank source → ∃ p, stripped = .ok (.ok (p, ⟨[], []⟩)))) ∧
    (¬ Panics limits source →
      (∃ r, attempt = .ok (.ok r) ∧ stripped = .ok (.ok r)) ∨
      (∃ e, attempt = .ok (.error e) ∧ stripped = .ok (.error e) ∧
        ¬ (Source.EndsInReturns source ∧
          ∃ line name, e = .parse line (.unclosedFunction name))) ∨
      ∃ line name, Source.EndsInReturns source ∧
        attempt = .ok (.error (.parse (line + 1) (.unclosedFunction name))) ∧
        stripped = .ok (.error (.parse line (.unclosedFunction name)))) := by
  intro attempt stripped
  constructor
  · intro h
    refine ⟨assembleProgram_of_panics h, fun hblank => ?_, fun hblank => ?_⟩
    · exact assembleProgram_of_panics ((panics_stripReturns_iff hblank).mpr h)
    · obtain ⟨p, hp⟩ := Program.assembleProgram_nil h.valid
      have hstripped : stripped = assembleProgram [] limits := by rw [← hblank.2]
      exact ⟨p, by rw [hstripped, assembleProgram_of_not_panics not_panics_nil, hp]⟩
  · intro h
    have hattempt : attempt = .ok (SensorScript.assembleProgram source limits) :=
      assembleProgram_of_not_panics h
    have hstripped : stripped =
        .ok (SensorScript.assembleProgram (Source.stripReturns source) limits) :=
      assembleProgram_of_not_panics (not_panics_stripReturns h)
    rw [hattempt, hstripped]
    simpa only [Except.ok.injEq] using Program.assembleProgram_stripReturns limits source

/-- A carriage return and nothing else, under the highest limit on the words of a line. -/
theorem blank_source_panics :
    let limits : Limits := { maxWordsPerLine := 0xFFFFFFFFFFFFFFFF }
    let source := [Source.carriageReturn]
    limits.check = .ok () ∧ Source.stripReturns source = [] ∧
      assembleProgram source limits = .error .capacityOverflow ∧
      ∃ p, assembleProgram [] limits = .ok (.ok (p, ⟨[], []⟩)) := by
  intro limits source
  have hvalid : limits.Valid := Limits.check_eq_ok_iff.mp (by decide)
  have hblank : Source.Blank source := Source.blank_iff.mpr ⟨0, rfl⟩
  obtain ⟨p, hp⟩ := Program.assembleProgram_nil hvalid
  refine ⟨by decide, hblank.2, ?_, p, ?_⟩
  · exact assembleProgram_of_panics (panics_of_blank hvalid (by decide) hblank)
  · rw [assembleProgram_of_not_panics not_panics_nil, hp]

end Attempt

end SensorScript
