/-
SensorScript.Text.Column — text set in columns of a least width.

Widths count characters. A text wider than its column is left as it is.
-/
import SensorScript.Text

namespace SensorScript.Column

/-- Text at the left edge of a column. -/
def left (width : Nat) (t : Text) : Text := t ++ List.replicate (width - t.length) ' '

/-- Text at the right edge of a column. -/
def right (width : Nat) (t : Text) : Text := List.replicate (width - t.length) ' ' ++ t

theorem length_left (width : Nat) (t : Text) : (left width t).length = max width t.length := by
  simp [left]; omega

theorem length_right (width : Nat) (t : Text) : (right width t).length = max width t.length := by
  simp [right]; omega

end SensorScript.Column
