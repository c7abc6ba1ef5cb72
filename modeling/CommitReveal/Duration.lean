/-! Lengths of time in nanoseconds and their text: the largest of the units s, ms, µs and ns that
leaves a whole part, and as many decimal places as are needed. -/
namespace CommitReveal

structure Duration where
  nanos : Nat
deriving DecidableEq, Repr

namespace Duration

def ofMillis (ms : Nat) : Duration := ⟨ms * 1000000⟩

def ofSeconds (s : Nat) : Duration := ⟨s * 1000000000⟩

/-- Whole milliseconds, rounded up: a timer never fires early. -/
def ceilMillis (d : Duration) : Nat :=
  (d.nanos + 999999) / 1000000

/-- Digits of `part`, one for each place, without the zeros at the end. -/
def places (count part : Nat) : List Char :=
  let ds := (toString part).toList
  let padded := List.replicate (count - ds.length) '0' ++ ds
  (padded.reverse.dropWhile (· == '0')).reverse

/-- The duration in units of `10 ^ exponent` nanoseconds. -/
def inUnit (d : Duration) (exponent : Nat) (unit : String) : String :=
  let fraction := places exponent (d.nanos % Nat.pow 10 exponent)
  let point := if fraction.isEmpty then "" else "."
  toString (d.nanos / Nat.pow 10 exponent) ++ point ++ String.ofList fraction ++ unit

def text (d : Duration) : String :=
  if 1000000000 ≤ d.nanos then d.inUnit 9 "s"
  else if 1000000 ≤ d.nanos then d.inUnit 6 "ms"
  else if 1000 ≤ d.nanos then d.inUnit 3 "µs"
  else d.inUnit 0 "ns"

end Duration

end CommitReveal
