import CommitReveal.Fault

/-! A periodic timer over milliseconds. Its ticks keep to the grid of the period; a tick that is taken
late by more than the slack starts a new grid. -/
namespace CommitReveal

structure Ticker where
  period : Nat
  due : Nat
deriving DecidableEq, Repr

namespace Ticker

/-- How late a tick may be and still keep to the grid. -/
def slack : Nat := 5

/-- The first tick comes after one period. -/
def start (now period : Nat) : Except Fault Ticker :=
  if period = 0 then .error .zeroPeriod else .ok ⟨period, now + period⟩

/-- The timer after the tick that was due has been taken. -/
def next (t : Ticker) (now : Nat) : Ticker :=
  { t with due := (if t.due + slack < now then now else t.due) + t.period }

end Ticker

end CommitReveal
