/-
SensorScript.CommandLine.Style — text in colour.

A styled text stands between an escape sequence that sets its style and one
that resets it. A reset inside the text is followed by the style again.
Without colour a styled text is the text itself.
-/
import SensorScript.Text.Column

namespace SensorScript

inductive Style where
  | heading
  | success
  | muted
  | function
  | label
  | output
  deriving DecidableEq

namespace Style

/-- Bold cyan, bold green, bright black, bright cyan, bright magenta, bright yellow. -/
def codes : Style → String
  | .heading => "1;36"
  | .success => "1;32"
  | .muted => "90"
  | .function => "96"
  | .label => "95"
  | .output => "93"

/-- The escape sequence with given codes. -/
def escape (codes : String) : Text := ['\x1b', '['] ++ codes.toList ++ ['m']

/-- Sets a style again after every reset inside a text. -/
def reopen (start : Text) : Text → Text
  | '\x1b' :: '[' :: '0' :: 'm' :: rest => ['\x1b', '[', '0', 'm'] ++ start ++ reopen start rest
  | c :: rest => c :: reopen start rest
  | [] => []

/-- Text of a style in a column of a least width. -/
def paintIn (color : Bool) (style : Style) (width : Nat) (t : Text) : Text :=
  if color then
    let start := escape style.codes
    start ++ Column.left width (reopen start t) ++ escape "0"
  else Column.left width t

/-- Text of a style. -/
def paint (color : Bool) (style : Style) (t : Text) : Text := paintIn color style 0 t

@[simp] theorem paint_plain (style : Style) (t : Text) : paint false style t = t := by
  simp [paint, paintIn, Column.left]

end Style

end SensorScript
