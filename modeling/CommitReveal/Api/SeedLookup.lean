import CommitReveal.Api.Form
import CommitReveal.Notice
import CommitReveal.Repository.Action
import CommitReveal.Text.Blank

/-! Looking up the seed behind a hash. A hash may be spelled with blanks around it, with a mark in front and
in digits of either case; the answer depends on the hash alone. -/
namespace CommitReveal.Api

/-- The hash that a text spells. -/
def hashOfText? (text : String) : Option Hash :=
  (Hex.decodeMarked (Text.trim text.toList)).bind (FixedBytes.ofBytes? 32)

/-- What a look-up says. -/
inductive SeedAnswer where
  | found (seed : Seed)
  | invalidHash
  | notFound
deriving DecidableEq, Repr

namespace SeedAnswer

def code : SeedAnswer → String
  | .found _ => "200"
  | _ => "500"

def message : SeedAnswer → String
  | .found _ => "ok"
  | .invalidHash => "invalid hash"
  | .notFound => "not found seed"

/-- The digits of the seed, without a mark. -/
def data? : SeedAnswer → Option String
  | .found seed => some (Hex.encode seed.bytes)
  | _ => none

/-- The answer as JSON. None of its texts needs an escape. -/
def body (a : SeedAnswer) : String :=
  let text (s : String) : String := "\"" ++ s ++ "\""
  "\x7b\"error\":" ++ text a.code ++ ",\"err_msg\":" ++ text a.message ++ ",\"data\":" ++
    (a.data?.map text).getD "null" ++ "\x7d"

end SeedAnswer

/-- Why a query cannot be used. -/
inductive QueryFault where
  | duplicateHash
deriving DecidableEq, Repr

def QueryFault.message : QueryFault → String
  | .duplicateHash => "Failed to deserialize query string: duplicate field `hash`"

/-- The value of `hash` in a query: empty if it is missing, and other names do not count. -/
def hashText (query : Bytes) : Except QueryFault String :=
  match (Form.pairs query).filter (·.1 = "hash") with
  | [] => .ok ""
  | [(_, value)] => .ok value
  | _ => .error .duplicateHash

/-- Looks up the seed of the hash that a text spells. A seed that cannot be read is not found, and a notice
says why. -/
def lookUp (text : String) : Program Repository.interface (SeedAnswer × List Notice) :=
  match hashOfText? text with
  | none => pure (.invalidHash, [])
  | some hash => do
    match ← (Repository.seed hash).run with
    | .ok (some seed) => return (.found seed, [])
    | .ok none => return (.notFound, [])
    | .error e => return (.notFound, [.seedLookupFailed e])

end CommitReveal.Api
