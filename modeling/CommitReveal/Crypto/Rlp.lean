import CommitReveal.Bytes

/-! The recursive length encoding of byte strings and lists of them. -/
namespace CommitReveal.Rlp

/-- The bytes of a number, the most significant first and none of them leading zeros; `width` bounds their
number. -/
def digits (width n : Nat) : Bytes :=
  (Bytes.ofNatBE width n).dropWhile (· = 0)

/-- A length of up to 55 is part of the mark; a longer one follows it. -/
def header (mark length : Nat) : Bytes :=
  if length ≤ 55 then [UInt8.ofNat (mark + length)]
  else
    let size := digits 8 length
    UInt8.ofNat (mark + 55 + size.length) :: size

/-- A byte string; a single byte below 128 stands for itself. -/
def string (bytes : Bytes) : Bytes :=
  match bytes with
  | [b] => if b < 0x80 then [b] else header 0x80 1 ++ [b]
  | _ => header 0x80 bytes.length ++ bytes

/-- A number below `2 ^ 256`, as its bytes. -/
def number (n : Nat) : Bytes :=
  string (digits 32 n)

/-- A list of items that are encoded already. -/
def list (items : List Bytes) : Bytes :=
  let body := items.flatten
  header 0xc0 body.length ++ body

end CommitReveal.Rlp
