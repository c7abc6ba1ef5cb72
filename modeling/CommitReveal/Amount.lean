/-! Token amounts are counted in base units and written in whole tokens. -/
namespace CommitReveal.Amount

/-- Decimal places of the payment token. -/
def tokenDecimals : Nat := 18

/-- From this many places on no 256-bit unit exists and the bare count is written. -/
def decimalsLimit : Nat := 78

/-- The digits of `n`, with zeros in front up to `width` of them. -/
def padded (width n : Nat) : String :=
  let ds := (toString n).toList
  String.ofList (List.replicate (width - ds.length) '0' ++ ds)

/-- Whole tokens, a point, and the rest with one digit for each place (one at least). -/
def text (amount decimals : Nat) : String :=
  if decimals < decimalsLimit then
    let unit := Nat.pow 10 decimals
    s!"{amount / unit}." ++ padded decimals (amount % unit)
  else
    toString amount

/-- An amount of the payment token. -/
def tokenText (amount : Nat) : String :=
  text amount tokenDecimals

end CommitReveal.Amount
