import CommitReveal.Crypto.Secp256k1
import CommitReveal.Text.Quoted

/-! Signing keys as text: 32 bytes in hexadecimal digits of either case, behind an optional mark. -/
namespace CommitReveal.Secp256k1

/-- Why a text is no signing key. -/
inductive KeyFault where
  | oddDigits
  /-- A byte that is no digit, shown as the character of that number, and its offset behind the mark. -/
  | character (c : Char) (offset : Nat)
  | length
  /-- The group has no such number. -/
  | outOfGroup
deriving DecidableEq, Repr

def KeyFault.message : KeyFault → String
  | .oddDigits => "odd number of digits"
  | .character c offset => "invalid character " ++ Text.quoteChar c ++ s!" at position {offset}"
  | .length => "invalid string length"
  | .outOfGroup => "signature error"

/-- The first character that is no digit, and its offset. -/
def strayChar? (cs : List Char) : Option (Char × Nat) :=
  cs.zipIdx.find? fun c => (Hex.value? c.1).isNone

/-- Reads a key. An odd number of bytes is noticed before any bad one. -/
def SigningKey.ofText (text : String) : Except KeyFault SigningKey :=
  let cs := Hex.dropEitherMark ((Bytes.ofText text).map fun b => Char.ofNat b.toNat)
  if cs.length % 2 = 1 then .error .oddDigits
  else
    match strayChar? cs with
    | some (c, offset) => .error (.character c offset)
    | none =>
      match (Hex.decode cs).bind (FixedBytes.ofBytes? 32) with
      | none => .error .length
      | some number =>
        match SigningKey.ofNat? number.toNat with
        | none => .error .outOfGroup
        | some key => .ok key

end CommitReveal.Secp256k1
