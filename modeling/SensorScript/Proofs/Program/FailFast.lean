/-
SensorScript.Proofs.Program.FailFast — parsing stops at the first line that is
refused.

The lines before it are carried out, the line itself changes nothing, and what
follows it is not looked at: a program that fails on a line is the same program
for every source that begins with the same lines.
-/
import SensorScript.Proofs.Draft.InPlace
import SensorScript.Proofs.Program.Tables

namespace SensorScript.Program

variable {limits : Limits} {p : Program} {source : Bytes}

/-- A new program that fails on a line keeps what the lines before it gave. -/
theorem parse_of_readLines_error (h : new limits = .ok p) {d : Draft} {error : Draft.Located}
    (hread : (Draft.empty limits).readLines 1 (Source.lines limits.maxLineLen source) =
      (d, .error error)) :
    p.draft.readSource source = (d, .error error) ∧
    p.parse source =
      ({ draft := d, stage := .failed, lastError := some (.parse error.line error.error) },
        .error (.parse error.line error.error)) := by
  obtain ⟨_, rfl⟩ := new_eq_ok_iff.mp h
  have hsource : (Draft.empty limits).readSource source = (d, .error error) := by
    unfold Draft.readSource
    change (Draft.empty limits).readLines 1
      (Source.lines (Draft.empty limits).limits.maxLineLen source) = _ at hread
    simp only [hread]
  refine ⟨hsource, ?_⟩
  simp only [parse, inStage, Call.stage, if_true, hsource]
  rfl

/-- An error that is not one of the end of the source is that of a line. -/
theorem readLines_of_parse_error (h : new limits = .ok p) {n : Nat} {e : ParseError}
    (hparse : (p.parse source).2 = .error (.parse n e)) (he : ∀ name, e ≠ .unclosedFunction name) :
    ∃ d, (Draft.empty limits).readLines 1 (Source.lines limits.maxLineLen source) =
      (d, .error ⟨n, e⟩) := by
  obtain ⟨_, rfl⟩ := new_eq_ok_iff.mp h
  simp only [parse, inStage, Call.stage, if_true] at hparse
  split at hparse
  · cases hparse
  next d located hsource =>
    cases hparse
    unfold Draft.readSource at hsource
    simp only at hsource
    split at hsource
    next d' located' hread =>
      cases hsource
      exact ⟨_, hread⟩
    next =>
      split at hsource
      next name _ =>
        cases hsource
        exact absurd rfl (he name)
      next => cases hsource

/-- A line that is refused leaves the draft as it was, and parsing ends with it.
The lines before it are all carried out, the tables and the open function are
what they left, and every other source with the same lines up to this one
makes the same failed program. -/
theorem parse_fails_fast (h : new limits = .ok p) :
    (∀ (d d' : Draft) (line : Nat) (words : List Text) (e : ParseError),
      Draft.InPlace.analyze line words d = .error e d' → d' = d) ∧
    ∀ (source : Bytes) (n : Nat) (e : ParseError), (p.parse source).2 = .error (.parse n e) →
      (∀ name, e ≠ .unclosedFunction name) →
      ∃ d text,
        0 < n ∧ (Source.lines limits.maxLineLen source)[n - 1]? = some text ∧
        Draft.InPlace.readLines 1 ((Source.lines limits.maxLineLen source).take (n - 1)) p.draft =
          .ok () d ∧
        Draft.InPlace.readLine n text d = .error e d ∧
        Draft.InPlace.readSource source p.draft = .error ⟨n, e⟩ d ∧
        (p.parse source).1.draft = d ∧
        ∀ source', (Source.lines limits.maxLineLen source').take n =
            (Source.lines limits.maxLineLen source).take n →
          p.parse source' = p.parse source := by
  refine ⟨fun d d' line words e => Draft.InPlace.eq_of_analyze_eq_error, ?_⟩
  intro source n e hparse he
  obtain ⟨d, hread⟩ := readLines_of_parse_error h hparse he
  obtain ⟨hsource, hresult⟩ := parse_of_readLines_error h hread
  obtain ⟨first, text, rest, hlines, hline, hfirst, herror⟩ :=
    Draft.readLines_eq_error_iff.mp hread
  have hn : n = first.length + 1 := hline.trans (Nat.add_comm ..)
  have hdraft : p.draft = .empty limits := by
    obtain ⟨_, rfl⟩ := new_eq_ok_iff.mp h
    rfl
  refine ⟨d, text, by omega, ?_, ?_, ?_, ?_, by rw [hresult], ?_⟩
  · rw [hlines, hn, Nat.add_sub_cancel, List.getElem?_append_right (Nat.le_refl _), Nat.sub_self]
    rfl
  · rw [hlines, hn, Nat.add_sub_cancel, List.take_left, hdraft, Draft.InPlace.readLines_eq, hfirst]
    rfl
  · rw [Draft.InPlace.readLine_eq, herror]
    rfl
  · rw [Draft.InPlace.readSource_eq, hsource]
    rfl
  · intro source' hsame
    have hlines' : Source.lines limits.maxLineLen source' =
        first ++ text :: (Source.lines limits.maxLineLen source').drop n := by
      have htake : (Source.lines limits.maxLineLen source).take n = first ++ [text] := by
        rw [hlines, hn, List.take_length_add_append]
        rfl
      have hsplit := List.take_append_drop n (Source.lines limits.maxLineLen source')
      rw [hsame, htake, List.append_assoc] at hsplit
      exact hsplit.symm
    have hread' := Draft.readLines_eq_error_iff.mpr ⟨first, text, _, hlines', hline, hfirst, herror⟩
    rw [hresult, (parse_of_readLines_error h hread').2]

/-- A function opened inside another one, before lines that differ. -/
theorem parse_stops_at_nested_function :
    let source := Utf8.encode ".function f\nSHL R0 $1\n.function g\n.endfunction".toList
    let other := Utf8.encode ".function f\nSHL R0 $1\n.function g\nSHL\nSHL".toList
    let p : Program := { draft := .empty {} }
    ∃ d, Draft.InPlace.readSource source p.draft = .error ⟨3, .nestedFunction ['g'] ['f']⟩ d ∧
      d.current = some 0 ∧ p.parse other = p.parse source := by
  intro source other p
  have hnew : new {} = .ok p := rfl
  have hparse : (p.parse source).2 = .error (.parse 3 (.nestedFunction ['g'] ['f'])) := by
    decide +kernel
  obtain ⟨d, _, _, _, _, _, hread, hd, hother⟩ :=
    (parse_fails_fast hnew).2 source 3 _ hparse nofun
  refine ⟨d, hread, ?_, hother other (by decide +kernel)⟩
  rw [← hd]
  decide +kernel

end SensorScript.Program
