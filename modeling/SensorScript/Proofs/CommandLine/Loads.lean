/-
SensorScript.Proofs.CommandLine.Loads — what a build does once its files are read.

A build goes on with limits and a source (`BuildOptions.Loads`), and all that it
does from there on is decided by what the source is assembled as, if that call
returns (`effect_of_loads`).
-/
import SensorScript.CommandLine.Commands
import SensorScript.Proofs.CommandLine.Task

namespace SensorScript

/-- What a build goes on with once it has read its files: the default limits or those of its
config file, and the source. -/
structure BuildOptions.Loads (o : BuildOptions) (f : Folder) (limits : Limits) (source : Bytes) :
    Prop where
  limits : o.config = none ∧ limits = {} ∨
    ∃ path text, o.config = some path ∧ Command.textOf (f.read path) = .ok text ∧
      Limits.read? text = some limits ∧ limits.check = .ok ()
  source : f.read o.source = .ok source

namespace Command

variable {o : BuildOptions} {f : Folder} {limits : Limits} {source : Bytes}

theorem effect_withLimits (h : o.Loads f limits source) (next : Limits → Task) :
    Task.effect f (withLimits o.config next) = Task.effect f (next limits) := by
  obtain ⟨hconfig, rfl⟩ | ⟨path, text, hconfig, htext, hread, hcheck⟩ := h.limits
  · rw [hconfig, withLimits]
  · simp only [hconfig, withLimits, Task.effect_read, htext, hread, hcheck]

theorem effect_withSource (h : f.read o.source = .ok source) (next : Bytes → Task) :
    Task.effect f (withSource o.source next) = Task.effect f (next source) := by
  simp only [withSource, Task.effect_read, h]

/-- The lines that a build prints before it assembles the source. -/
def progress (color : Bool) (o : BuildOptions) : List Text := [
  Style.paint color .heading "Building script...".toList, [],
  "  Compiling: ".toList ++ Style.paint color .muted o.source]

theorem effect_of_loads (color : Bool) (h : o.Loads f limits source) :
    Task.effect f (buildTask color o) =
      (Task.effect f (.call (Attempt.assembleProgram source limits) (finishBuild color o))).after
        (Task.printed (progress color o)) := by
  rw [buildTask, Task.effect_line, Task.effect_line, effect_withLimits h,
    effect_withSource h.source, Task.effect_line, Task.Effect.after_after,
    Task.Effect.after_after]
  simp [Task.printed, progress]

/-- The lines that a build prints before the listing. -/
def heading (color : Bool) (o : BuildOptions) (image : Image) : List Text := [
  Style.paint color .heading "Building script...".toList, [],
  "  Compiling: ".toList ++ Style.paint color .muted o.source, summary color image, []]

/-- A build of a source that is assembled prints what it does, with the listing if that is asked
for, and writes the image. -/
theorem effect_of_assembled {p : Program} {image : Image} (color : Bool)
    (hloads : o.Loads f limits source)
    (h : Attempt.assembleProgram source limits = .ok (.ok (p, image))) :
    Task.effect f (buildTask color o) =
      (Task.effect f (writeImage color (outputPath o) (render image o.format))).after
        (Task.printed (progress color o ++ summary color image ::
          if o.listing then [] :: (ListingLine.list p image).map (·.text color) else [])) := by
  rw [effect_of_loads color hloads, h]
  show (Task.effect f (.line _ <| .lines _ _)).after _ = _
  rw [Task.effect_line, Task.effect_lines, Task.Effect.after_after, Task.Effect.after_after,
    List.append_assoc, ← List.append_assoc]
  simp [Task.printed]

end Command

end SensorScript
