import CommitReveal.Keccak

/-! The functions of the oracle and of the payment token that the agent calls. A call's data is four bytes
that name the function, and a word for each argument. -/
namespace CommitReveal.Contract

inductive Function where
  | getHash
  | commit
  | reveal
  | getUserUnverifiedList
  | approve
  | allowance
deriving DecidableEq, Repr

namespace Function

def name : Function → String
  | .getHash => "getHash"
  | .commit => "commit"
  | .reveal => "reveal"
  | .getUserUnverifiedList => "getUserUnverifiedList"
  | .approve => "approve"
  | .allowance => "allowance"

/-- The types of the arguments. -/
def parameters : Function → List String
  | .getHash | .commit => ["bytes32"]
  | .reveal => ["bytes32", "bytes32"]
  | .getUserUnverifiedList => ["address"]
  | .approve => ["address", "uint256"]
  | .allowance => ["address", "address"]

def declaration (f : Function) : String :=
  f.name ++ "(" ++ String.intercalate "," f.parameters ++ ")"

/-- The first bytes of the declaration's hash. -/
def selector (f : Function) : Bytes :=
  (Keccak.hash (.ofAscii f.declaration)).bytes.take 4

def encode (f : Function) (arguments : List Hash) : Bytes :=
  f.selector ++ arguments.flatMap (·.bytes)

end Function

end CommitReveal.Contract
