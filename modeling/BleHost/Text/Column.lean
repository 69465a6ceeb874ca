/-!
# Columns of a report

Padding to a width counted in characters. A text that is already as wide as its column is left as
it is: padding never cuts.
-/

namespace BleHost.Text

/-- Pad with blanks on the right. -/
def padRight (width : Nat) (text : String) : String :=
  text ++ String.ofList (List.replicate (width - text.length) ' ')

/-- Pad with blanks on the left. -/
def padLeft (width : Nat) (text : String) : String :=
  String.ofList (List.replicate (width - text.length) ' ') ++ text

end BleHost.Text
