/-! What ends a task on the spot, without an answer of its own. -/
namespace CommitReveal

inductive Fault where
  /-- A sum of words needs a 65th bit. -/
  | overflow
  /-- A product of words needs a 65th bit. -/
  | productOverflow
  /-- A periodic timer was asked for without a period. -/
  | zeroPeriod
deriving DecidableEq, Repr

def Fault.message : Fault → String
  | .overflow => "attempt to add with overflow"
  | .productOverflow => "attempt to multiply with overflow"
  | .zeroPeriod => "`period` must be non-zero."

end CommitReveal
