import CommitReveal.Json.Writer

/-! Requests to a node. -/
namespace CommitReveal.Node

/-- What a node is asked: a method and its parameters, if it takes any. -/
structure Request where
  method : String
  params : Option (List Json.Value)
deriving Repr

/-- The envelope of a request: its version and number, the method and the parameters. -/
def Request.envelope (r : Request) (number : Nat) : Json.Value :=
  .object ([("jsonrpc", .string "2.0"), ("id", .number (.whole number)), ("method", .string r.method)] ++
    (r.params.map fun ps => ("params", Json.Value.list ps)).toList)

def Request.body (r : Request) (number : Nat) : String :=
  (r.envelope number).written

end CommitReveal.Node
