import CommitReveal.Decimal.Double

/-! The shortest decimal text of a double: the fewest digits that read back as the same double, and of
those the nearest. It is positional from `0.00001` up to sixteen digits before the point. -/
namespace CommitReveal.Double

/-- The least and the greatest number that round to a double, in quarters of its last place. At a
power of two the neighbour below is half as far. -/
def bounds (x : Double) : Nat × Nat :=
  let below := if x.mantissa = leastFull ∧ smallest < x.exponent then 1 else 2
  (4 * x.mantissa - below, 4 * x.mantissa + 2)

/-- A multiple of a power of ten that reads back as `x`, the nearest of them if there is any. -/
def onGrid (x : Double) (power : Int) : Option Nat :=
  let (up, down) := scale 10 power
  let (tens, quarters) :=
    let (two, half) := scale 2 (x.exponent - 2)
    (up * half, down * two)
  let (low, high) := x.bounds
  let inside (d : Nat) : Bool :=
    if x.mantissa % 2 = 0 then low * quarters ≤ d * tens && d * tens ≤ high * quarters
    else low * quarters < d * tens && d * tens < high * quarters
  let near := roundDiv (4 * x.mantissa * quarters) tens
  let floor := 4 * x.mantissa * quarters / tens
  [near, floor, floor + 1].find? inside

/-- Goes from coarse grids to finer ones until a multiple reads back. -/
def search (x : Double) : (fuel : Nat) → (power : Int) → Nat × Int
  | 0, power => (0, power)
  | fuel + 1, power =>
    match x.onGrid power with
    | some d => (d, power)
    | none => search x fuel (power - 1)

/-- The digits as a number, and the power of ten of the last one. -/
def shortest (x : Double) : Nat × Int :=
  x.search 700 309

/-- Digits with a point after the first `whole` of them, if there are more. -/
def pointed (digits : List Char) (whole : Nat) : List Char :=
  let front := digits.take whole
  let zeros := List.replicate (whole - digits.length) '0'
  let back := digits.drop whole
  front ++ zeros ++ ['.'] ++ if back.isEmpty then ['0'] else back

/-- An exponent with its sign and two digits at least. -/
def exponentText (e : Int) : List Char :=
  let ds := (toString e.natAbs).toList
  ['e', if e < 0 then '-' else '+'] ++ List.replicate (2 - ds.length) '0' ++ ds

def textChars (x : Double) : List Char :=
  if x.mantissa = 0 then ['0', '.', '0']
  else
    let (d, power) := x.shortest
    let digits := (toString d).toList
    let first : Int := power + digits.length - 1
    if 0 ≤ first ∧ first ≤ 15 then pointed digits (first.toNat + 1)
    else if -5 ≤ first ∧ first < 0 then
      ['0', '.'] ++ List.replicate ((-first).toNat - 1) '0' ++ digits
    else
      digits.take 1 ++ (if digits.length = 1 then [] else '.' :: digits.drop 1) ++ exponentText first

def text (negative : Bool) (x : Double) : String :=
  String.ofList ((if negative then ['-'] else []) ++ x.textChars)

end CommitReveal.Double
