/-
SensorScript.Proofs.Program.Parse — which sources a new program parses.

A new program has an empty draft, so what it makes of a source is what the
script language says of it.
-/
import SensorScript.Proofs.Program.Tables
import SensorScript.Proofs.Script.Reading

namespace SensorScript.Program

variable {limits : Limits} {p : Program}

/-- A new program parses a source exactly when its draft can be filled with it. -/
theorem parse_eq_ok_iff (h : new limits = .ok p) {source : Bytes} {p' : Program} :
    p.parse source = (p', .ok ()) ↔
      ∃ d, (Draft.empty limits).readSource source = (d, .ok ()) ∧
        p' = { draft := d, stage := .parsed } := by
  obtain ⟨_, rfl⟩ := new_eq_ok_iff.mp h
  constructor
  · intro h
    simp only [parse, inStage, Call.stage, if_true] at h
    split at h
    next heq => cases h; exact ⟨_, heq, rfl⟩
    next heq => cases h
  · rintro ⟨d, hd, rfl⟩
    simp only [parse, inStage, Call.stage, if_true, hd]

/-- A new program parses exactly the sources of scripts that are within the
limits, and then it is in the next stage and its tables are those of the script. -/
theorem parse_iff_script (h : new limits = .ok p) (source : Bytes) :
    ((p.parse source).2 = .ok () ↔
      ∃ script, Script.OfSource limits source script ∧ Script.Within limits script) ∧
    ∀ script, Script.OfSource limits source script → Script.Within limits script →
      (p.parse source).1.stage = .parsed ∧
      (p.parse source).1.draft.current = none ∧
      (p.parse source).1.draft.instructions.items = Script.instructions 0 script ∧
      (p.parse source).1.draft.symbols.labels.items = Script.labels 0 0 script ∧
      (p.parse source).1.draft.symbols.functions.items = Script.functions 0 script := by
  have hparse {script} (hs : Script.OfSource limits source script)
      (hw : Script.Within limits script) :
      ∃ d, Script.Fills script d ∧ p.parse source = ({ draft := d, stage := .parsed }, .ok ()) := by
    obtain ⟨d, hd⟩ := Script.exists_extends_iff.mpr hw
    exact ⟨d, Script.fills_of_extends hd, (parse_eq_ok_iff h).mpr
      ⟨d, Script.readSource_empty_iff.mpr ⟨script, hs, hd⟩, rfl⟩⟩
  constructor
  · constructor
    · intro hok
      obtain ⟨d, hd, _⟩ := (parse_eq_ok_iff h).mp (Prod.ext rfl hok)
      obtain ⟨script, hs, hd⟩ := Script.readSource_empty_iff.mp hd
      exact ⟨script, hs, Script.exists_extends_iff.mp ⟨d, hd⟩⟩
    · rintro ⟨script, hs, hw⟩
      obtain ⟨d, _, hp⟩ := hparse hs hw
      rw [hp]
  · intro script hs hw
    obtain ⟨d, hd, hp⟩ := hparse hs hw
    rw [hp]
    exact ⟨rfl, hd.current_eq, hd.instructions, hd.labels, hd.functions⟩

/-- A function with a label at its end, and an empty one of the same name. -/
theorem script_of_parsed_source :
    let source := Utf8.encode
      ".function f\nMOV R0 M1[$5] ; load\nL:\n.endfunction\n\n.function f\n.endfunction".toList
    ∃ script, Script.OfSource {} source script ∧ Script.Within {} script ∧
      Script.labels 0 0 script = [⟨['L'], 1, 0⟩] ∧
      Script.functions 0 script = [⟨['f'], 0, 1⟩, ⟨['f'], 1, 1⟩] := by
  intro source
  have h : new {} = .ok { draft := .empty {} } := rfl
  obtain ⟨script, hs, hw⟩ := (parse_iff_script h source).1.mp (by decide +kernel)
  obtain ⟨_, _, _, hl, hf⟩ := (parse_iff_script h source).2 script hs hw
  exact ⟨script, hs, hw, hl.symm.trans (by decide +kernel), hf.symm.trans (by decide +kernel)⟩

end SensorScript.Program
