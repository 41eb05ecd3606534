/-
SensorScript.Text — characters and bytes as lists, so that readers and
printers meet by plain induction.

Script text, symbol names and everything the assembler prints are `Text`.
Source buffers and firmware images are `Bytes`. A `String` appears where
text is a fixed phrase or a finished message.
-/

namespace SensorScript

/-- Text as the list of its characters. -/
abbrev Text := List Char

/-- A byte buffer. -/
abbrev Bytes := List UInt8

namespace Text

/-- The text as a string, for messages. -/
def toStr (t : Text) : String := String.ofList t

end Text

end SensorScript
