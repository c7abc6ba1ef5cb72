import CommitReveal.Hex

/-! Percent encoding: a percent sign before two hexadecimal digits stands for a byte, every other one for
itself. -/
namespace CommitReveal.Text.Percent

def sign : UInt8 := 0x25

/-- The value of a byte that is a hexadecimal digit. -/
def value? (b : UInt8) : Option Nat :=
  Hex.value? (Char.ofNat b.toNat)

def decode : Bytes → Bytes
  | b :: hi :: lo :: rest =>
    match value? hi, value? lo with
    | some h, some l =>
      if b = sign then UInt8.ofNat (16 * h + l) :: decode rest else b :: decode (hi :: lo :: rest)
    | _, _ => b :: decode (hi :: lo :: rest)
  | bytes => bytes

end CommitReveal.Text.Percent
