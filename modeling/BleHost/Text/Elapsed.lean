/-!
# Lengths of time

A length of time is shown in the largest unit of which it holds at least one: seconds with the
milliseconds as a fraction, or whole milliseconds.
-/

namespace BleHost.Text

/-- The digits of a fraction of a thousand, with trailing zeros left out. -/
def thousandths (n : Nat) : List Char :=
  let digits := [n / 100 % 10, n / 10 % 10, n % 10].map fun d => Char.ofNat ('0'.toNat + d)
  (digits.reverse.dropWhile (· == '0')).reverse

/-- The text of a length of time given in milliseconds. -/
def elapsed (ms : Nat) : String :=
  if ms = 0 then "0ns"
  else if ms < 1000 then s!"{ms}ms"
  else if ms % 1000 = 0 then s!"{ms / 1000}s"
  else s!"{ms / 1000}." ++ String.ofList (thousandths (ms % 1000)) ++ "s"

end BleHost.Text
