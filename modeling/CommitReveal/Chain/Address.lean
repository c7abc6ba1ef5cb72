import CommitReveal.Chain.Error
import CommitReveal.FixedBytes

/-! Addresses of contracts as they are written in a configuration. -/
namespace CommitReveal.Address

/-- Reads an address; the refusal names the whole text. -/
def read (value : String) : Except ChainError Address :=
  match FixedBytes.ofText 20 value with
  | .ok a => .ok a
  | .error e => .error (.configuration ("Invalid address " ++ value ++ ": " ++ e.message))

end CommitReveal.Address
