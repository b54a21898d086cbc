/-
Lengths of time as a reader wants them: in the largest unit that leaves
a digit before the point, with two places behind it.
-/

namespace TapeAsm.Cli

/-- The hundredths of a unit in a length of time, a half counted up. -/
def hundredths (unit nanoseconds : Nat) : Nat :=
  (200 * nanoseconds + unit) / (2 * unit)

/-- A number of hundredths with a point before the last two places. -/
def pointed (n : Nat) : String :=
  let places := toString (n % 100)
  toString (n / 100) ++ "." ++ (if n % 100 < 10 then "0" else "") ++ places

/-- A length of time in seconds or thousandth parts of them. -/
def durationText (nanoseconds : Nat) : String :=
  if nanoseconds < 1000 then pointed (hundredths 1 nanoseconds) ++ "ns"
  else if nanoseconds < 1000000 then
    pointed (hundredths 1000 nanoseconds) ++ "µs"
  else if nanoseconds < 1000000000 then
    pointed (hundredths 1000000 nanoseconds) ++ "ms"
  else pointed (hundredths 1000000000 nanoseconds) ++ "s"

end TapeAsm.Cli
