import CommitReveal.FixedBytes

/-! Hexadecimal texts as nodes write them: numbers without a fixed width, values of a fixed length, and byte
strings. A mark in front is optional. In numbers and fixed values blanks between the digits are passed
over, although they count for the length. -/
namespace CommitReveal.Node.HexText

/-- The digits and the length of a text after its mark; nothing if it holds another character. -/
def digits? (text : String) : Option (List Nat × Nat) := do
  let cs := Hex.dropMark text.toList
  let ds ← (Hex.spacedDigits 0 cs).mapM Except.toOption
  return (ds, cs.length)

/-- Each two digits make a byte; one left over does not count. -/
def pairs : List Nat → Bytes
  | hi :: lo :: rest => UInt8.ofNat (16 * hi + lo) :: pairs rest
  | _ => []

/-- If the length is odd the first digit is a byte of its own. -/
def toBytes (length : Nat) (digits : List Nat) : Bytes :=
  if length % 2 = 1 then
    match digits with
    | [] => []
    | d :: rest => UInt8.ofNat d :: pairs rest
  else pairs digits

/-- A number of at most `width` digits and at least one. -/
def number? (width : Nat) (text : String) : Option Nat := do
  let (ds, length) ← digits? text
  if 0 < length ∧ length ≤ width then some (Bytes.toNatBE (toBytes length ds)) else none

/-- A value of `n` bytes; where blanks took the place of digits, zeros end it. -/
def fixed? (n : Nat) (text : String) : Option (FixedBytes n) := do
  let (ds, length) ← digits? text
  if length = 2 * n then
    let bytes := toBytes length ds
    FixedBytes.ofBytes? n (bytes ++ List.replicate (n - bytes.length) 0)
  else none

/-- A byte string of any length. -/
def bytes? (text : String) : Option Bytes :=
  Hex.decodeMarked text.toList

end CommitReveal.Node.HexText
