import CommitReveal.Repository.Action
import CommitReveal.Store.Backend

/-! Running the repository's operations on a store that never fails, at a time that stands still. -/
namespace CommitReveal.Repository

def answer (time : Int64) : (r : Request) → Store.Backend → r.Answer × Store.Backend
  | .call c, b =>
    let (result, b) := b.perform c
    (.ok result, b)
  | .clock, b => (time, b)

def runOn (time : Int64) (p : Program interface α) (b : Store.Backend) : α × Store.Backend :=
  p.run (answer time) b

end CommitReveal.Repository
