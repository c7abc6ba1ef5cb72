import CommitReveal.Node.Reading

/-! Replies of a node: an envelope around a result or around an error. -/
namespace CommitReveal.Node

/-- What a node says when it refuses a request. -/
structure Refusal where
  code : Int
  message : String
  data : Option Json.Value
deriving Repr

namespace Refusal

def text (r : Refusal) : String :=
  let data := match r.data with
    | none => "None"
    | some v => "Some(" ++ v.shown ++ ")"
  s!"(code: {r.code}, message: {r.message}, data: {data})"

/-- Whether a contract has undone the call. -/
def isRevert (r : Refusal) : Bool :=
  r.message.contains "revert"

mutual

/-- The first byte string in a value: the value itself, or in one of its members by name. -/
def bytesIn? : Json.Value → Option Bytes
  | .string s => HexText.bytes? s
  | .object members => ((Json.byName (bytesInMembers members)).filterMap (·.2)).head?
  | _ => none

def bytesInMembers : List (String × Json.Value) → List (String × Option Bytes)
  | [] => []
  | (name, v) :: rest => (name, bytesIn? v) :: bytesInMembers rest

end

/-- What a contract gave as its reason; nothing if it gave none. -/
def revertData (r : Refusal) : Bytes :=
  (r.data.bind bytesIn?).getD []

end Refusal

inductive Reply where
  | result (value : Json.Value)
  | refused (refusal : Refusal)
deriving Repr

namespace Reply

/-- A whole number of 64 bits, with its sign. -/
def code : Reading Int
  | .number (.whole n) => if 2 * n < UInt64.size then some n else none
  | _ => none

def refusal : Reading Refusal := fun v => do
  let fs ← Fields.ofEither ["code", "message", "data"] v
  return {
    code := ← fs.need "code" code
    message := ← fs.need "message" Reading.text
    data := ← fs.mayHave "data" Reading.anything }

/-- A whole number that is not negative. -/
def identifier : Reading Int
  | .number (.whole n) => if 0 ≤ n then some n else none
  | _ => none

def version : Reading Unit
  | .string "2.0" => some ()
  | _ => none

/-- An envelope holds its version, the request's number, and either a result or an error; nothing else. -/
def ofValue : Reading Reply := fun v => do
  let fs ← Fields.ofObject v
  if fs.any fun f => f.1 ∉ ["jsonrpc", "id", "result", "error"] then none
  fs.need "jsonrpc" version
  let _ ← fs.need "id" identifier
  match ← fs.ifAny "result" Reading.anything, ← fs.ifAny "error" refusal with
  | some value, none => return .result value
  | none, some r => return .refused r
  | _, _ => none

/-- Reads the body of a reply. -/
def read (body : String) : Option Reply :=
  ((Json.Value.ofText body).toOption).bind ofValue

end Reply

end CommitReveal.Node
