import CommitReveal.Text.Percent
import CommitReveal.Text.Utf8

/-! Query strings as pairs of names and values, URL-encoded: `&` between pairs, the first `=` between
name and value, `+` for a space and `%` before two hexadecimal digits for any byte. -/
namespace CommitReveal.Api.Form

def byteOf (c : Char) : UInt8 :=
  UInt8.ofNat c.toNat

/-- Undoes the encoding of one name or value. -/
def unescape (bytes : Bytes) : Bytes :=
  Text.Percent.decode (bytes.map fun b => if b = byteOf '+' then byteOf ' ' else b)

/-- The parts between separators. -/
def splitAt (separator : UInt8) : Bytes → List Bytes
  | [] => [[]]
  | b :: rest =>
    if b = separator then [] :: splitAt separator rest
    else
      match splitAt separator rest with
      | part :: parts => (b :: part) :: parts
      | [] => [[b]]

/-- The name and the value of a pair. -/
def pair (part : Bytes) : String × String :=
  let isName (b : UInt8) : Bool := b ≠ byteOf '='
  let text (bytes : Bytes) : String := Text.decodeUtf8 (unescape bytes)
  (text (part.takeWhile isName), text ((part.dropWhile isName).drop 1))

/-- The pairs of a query; an empty part is none. -/
def pairs (query : Bytes) : List (String × String) :=
  ((splitAt (byteOf '&') query).filter (!·.isEmpty)).map pair

end CommitReveal.Api.Form
