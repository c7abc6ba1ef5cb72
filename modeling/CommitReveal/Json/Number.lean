import CommitReveal.Decimal.Shortest
import CommitReveal.Json.Fault

/-! Numbers in JSON. One without a fraction or an exponent is whole if it fits 64 bits, signed when it is
negative; every other one is a double, and it is an error if that is too large. -/
namespace CommitReveal.Json

inductive Number where
  | whole (value : Int)
  | double (negative : Bool) (value : Double)
deriving DecidableEq, Repr

def Number.found : Number → Found
  | .whole value => .integer value
  | .double negative value => .float (value.text negative)

/-- The spelling of a number: its digits before the point, those after it, and its exponent. -/
structure Numeral where
  negative : Bool
  integer : List Nat
  fraction : Option (List Nat)
  exponent : Option Int
deriving DecidableEq, Repr

def digit? (c : Char) : Option Nat :=
  if '0' ≤ c ∧ c ≤ '9' then some (c.toNat - '0'.toNat) else none

/-- The digits at the front, and what follows them. -/
def readDigits : List Char → List Nat × List Char
  | [] => ([], [])
  | c :: s =>
    match digit? c with
    | none => ([], c :: s)
    | some d => let (ds, s) := readDigits s; (d :: ds, s)

/-- What is wrong where a digit is missing. -/
def digitMissing : List Char → Fault
  | [] => .endInValue
  | _ :: _ => .invalidNumber

def readFraction (s : List Char) : Except Fault (Option (List Nat) × List Char) :=
  match s with
  | '.' :: s =>
    match readDigits s with
    | ([], s) => .error (digitMissing s)
    | (ds, s) => .ok (some ds, s)
  | s => .ok (none, s)

def valueOf (digits : List Nat) : Nat :=
  digits.foldl (fun n d => 10 * n + d) 0

def readSign : List Char → Bool × List Char
  | '-' :: s => (true, s)
  | '+' :: s => (false, s)
  | s => (false, s)

def readExponent (s : List Char) : Except Fault (Option Int × List Char) :=
  match s with
  | c :: s =>
    if c = 'e' ∨ c = 'E' then
      let (negative, s) := readSign s
      match readDigits s with
      | ([], s) => .error (digitMissing s)
      | (ds, s) => .ok (some (if negative then -(valueOf ds : Int) else valueOf ds), s)
    else .ok (none, c :: s)
  | [] => .ok (none, [])

/-- Reads a numeral; only the numeral 0 itself begins with the digit 0. -/
def readNumeral (s : List Char) : Except Fault (Numeral × List Char) := do
  let (negative, s) := match s with
    | '-' :: s => (true, s)
    | s => (false, s)
  match readDigits s with
  | ([], s) => .error (digitMissing s)
  | (0 :: _ :: _, _) => .error .invalidNumber
  | (integer, s) =>
    let (fraction, s) ← readFraction s
    let (exponent, s) ← readExponent s
    return (⟨negative, integer, fraction, exponent⟩, s)

/-- Appends digits to a number while it stays within 64 bits; the second part counts those left over. -/
def gather : (value : Nat) → List Nat → Nat × Nat
  | value, [] => (value, 0)
  | value, d :: ds =>
    if 10 * value + d < UInt64.size then gather (10 * value + d) ds else (value, ds.length + 1)

/-- Divides by large powers of ten until the exponent is within reach, at most `fuel` times. -/
def lift : (fuel : Nat) → Double → Int → Option Double × Int
  | 0, x, e => (some x, e)
  | fuel + 1, x, e =>
    if -308 ≤ e ∨ x.mantissa = 0 then (some x, e)
    else
      match (Double.ofNat (Nat.pow 10 308)).bind x.div with
      | some y => lift fuel y (e + 308)
      | none => (none, e)

/-- A whole number times a power of ten, rounded once for each of its factors. -/
def scaled (value : Nat) (exponent : Int) : Option Double := do
  let x ← Double.ofNat value
  if x.mantissa = 0 then
    return x
  else if 308 < exponent then
    none
  else if 0 ≤ exponent then
    x.mul (← Double.ofNat (Nat.pow 10 exponent.toNat))
  else
    match lift 3 x exponent with
    | (none, _) => none
    | (some y, e) =>
      if y.mantissa = 0 then
        return y
      else
        y.div (← Double.ofNat (Nat.pow 10 (-e).toNat))

/-- Digits beyond 64 bits do not count: those before the point only raise the exponent. -/
def Numeral.toDouble (n : Numeral) : Option Double :=
  let (front, skipped) := gather 0 n.integer
  let fraction := n.fraction.getD []
  let (value, left) := gather front fraction
  scaled value (skipped - (fraction.length - left : Nat) + n.exponent.getD 0)

def Numeral.isPlain (n : Numeral) : Bool :=
  n.fraction.isNone && n.exponent.isNone

/-- A plain numeral within 64 bits is whole; `-0` is not, for it has a sign. -/
def Numeral.number (n : Numeral) : Except Fault Number :=
  let value := valueOf n.integer
  if n.isPlain && !n.negative && value < UInt64.size then .ok (.whole value)
  else if n.isPlain && n.negative && 0 < value && 2 * value ≤ UInt64.size then .ok (.whole (-value))
  else
    match n.toDouble with
    | some x => .ok (.double n.negative x)
    | none => .error .numberOutOfRange

/-- Reads a number. Its fault is the first one met. -/
def readNumber (s : List Char) : Except Fault (Number × List Char) := do
  let (numeral, s) ← readNumeral s
  return (← numeral.number, s)

/-- Passes over a number. Here a number cut short is as bad as any other. -/
def skipNumber (s : List Char) : Except Fault (List Char) :=
  match readNumeral s with
  | .ok (_, s) => .ok s
  | .error _ => .error .invalidNumber

end CommitReveal.Json
