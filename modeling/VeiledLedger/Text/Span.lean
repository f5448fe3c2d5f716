/-
  VeiledLedger.Text.Span — a length of time as messages show it.

  A span is counted in nanoseconds and shown in the largest unit of seconds, milliseconds,
  microseconds and nanoseconds of which it holds at least one, followed by its exact
  fraction without trailing zeros.
-/

namespace VeiledLedger.Text.Span

/-- The last `width` decimal digits of `n`. -/
def digits (width n : Nat) : List Char :=
  (List.range width).map (fun i => Nat.digitChar (n / 10 ^ (width - 1 - i) % 10))

/-- `n` in a unit of `10 ^ places` of itself: the whole part, and the fraction if there is one. -/
def decimal (places n : Nat) : String :=
  let fraction := ((digits places (n % 10 ^ places)).reverse.dropWhile (· = '0')).reverse
  toString (n / 10 ^ places) ++ (if fraction = [] then "" else String.ofList ('.' :: fraction))

def render (nanoseconds : Nat) : String :=
  if 1000000000 ≤ nanoseconds then decimal 9 nanoseconds ++ "s"
  else if 1000000 ≤ nanoseconds then decimal 6 nanoseconds ++ "ms"
  else if 1000 ≤ nanoseconds then decimal 3 nanoseconds ++ "µs"
  else decimal 0 nanoseconds ++ "ns"

end VeiledLedger.Text.Span
