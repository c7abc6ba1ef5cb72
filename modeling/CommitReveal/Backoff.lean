import CommitReveal.Duration

/-! Waits between attempts at the same thing. The first is as given; each later one is half as long
again as the one before, up to a limit. -/
namespace CommitReveal.Backoff

/-- The wait after a wait of `current`. -/
def following (limit current : Duration) : Duration :=
  if 2 * limit.nanos ≤ 3 * current.nanos then limit else ⟨3 * current.nanos / 2⟩

end CommitReveal.Backoff
