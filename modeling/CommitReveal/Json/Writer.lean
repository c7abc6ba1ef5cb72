import CommitReveal.Json.Value

/-! The shortest JSON text of a value: no blanks, and no escapes but those that are needed. -/
namespace CommitReveal.Json

/-- A character inside a text. -/
def writtenChar (c : Char) : List Char :=
  if c = '"' ∨ c = '\\' then ['\\', c]
  else if c.toNat < 0x20 then
    ['\\', 'u', '0', '0', Hex.digit (c.toNat / 16), Hex.digit (c.toNat % 16)]
  else [c]

def writtenString (s : String) : String :=
  String.ofList ('"' :: s.toList.flatMap writtenChar ++ ['"'])

mutual

def Value.written : Value → String
  | .null => "null"
  | .boolean value => if value then "true" else "false"
  | .number (.whole n) => toString n
  | .number (.double negative x) => x.text negative
  | .string value => writtenString value
  | .list items => "[" ++ String.intercalate "," (writtenItems items) ++ "]"
  | .object members => "\x7b" ++ String.intercalate "," (writtenMembers members) ++ "\x7d"

def writtenItems : List Value → List String
  | [] => []
  | v :: rest => v.written :: writtenItems rest

def writtenMembers : List (String × Value) → List String
  | [] => []
  | (name, v) :: rest => (writtenString name ++ ":" ++ v.written) :: writtenMembers rest

end

end CommitReveal.Json
