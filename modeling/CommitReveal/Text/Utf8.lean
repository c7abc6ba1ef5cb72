import CommitReveal.Bytes

/-! Reading UTF-8 from any bytes. What is no character becomes U+FFFD: one for each longest beginning
of a character, or for a byte that begins none. -/
namespace CommitReveal.Text

/-- Bytes that may stand at one place, ends included. -/
structure ByteRange where
  low : UInt8
  high : UInt8

/-- The bytes that follow a first one in general. -/
def following : ByteRange := ⟨0x80, 0xbf⟩

/-- What a first byte contributes to the code point, and what must follow it. -/
def leading? (b : UInt8) : Option (Nat × List ByteRange) :=
  let n := b.toNat
  if n < 0x80 then some (n, [])
  else if n < 0xc2 then none
  else if n < 0xe0 then some (n - 0xc0, [following])
  else if n = 0xe0 then some (n - 0xe0, [⟨0xa0, 0xbf⟩, following])
  else if n = 0xed then some (n - 0xe0, [⟨0x80, 0x9f⟩, following])
  else if n < 0xf0 then some (n - 0xe0, [following, following])
  else if n = 0xf0 then some (n - 0xf0, [⟨0x90, 0xbf⟩, following, following])
  else if n < 0xf4 then some (n - 0xf0, [following, following, following])
  else if n = 0xf4 then some (n - 0xf0, [⟨0x80, 0x8f⟩, following, following])
  else none

/-- Takes the bytes that must follow, as far as they do: the code point, if it is complete, and how many
bytes were taken. -/
def takeFollowing : (value : Nat) → List ByteRange → Bytes → Option Nat × Nat
  | value, [], _ => (some value, 0)
  | _, _ :: _, [] => (none, 0)
  | value, r :: ranges, b :: rest =>
    if r.low ≤ b ∧ b ≤ r.high then
      let (result, taken) := takeFollowing (64 * value + (b.toNat - 0x80)) ranges rest
      (result, taken + 1)
    else (none, 0)

def replacement : Char := '\ufffd'

/-- The characters that bytes spell; the first `skip` bytes belong to one that is read already. -/
def decodeFrom : (skip : Nat) → Bytes → List Char
  | _, [] => []
  | skip + 1, _ :: rest => decodeFrom skip rest
  | 0, b :: rest =>
    match leading? b with
    | none => replacement :: decodeFrom 0 rest
    | some (value, ranges) =>
      let (result, taken) := takeFollowing value ranges rest
      (result.map Char.ofNat).getD replacement :: decodeFrom taken rest

def decodeUtf8 (bytes : Bytes) : String :=
  String.ofList (decodeFrom 0 bytes)

end CommitReveal.Text
