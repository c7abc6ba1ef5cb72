/-! The lifecycle of a commitment. Its last three stages are final: no later write leaves them. -/
namespace CommitReveal

inductive Status where
  /-- The seed is stored, nothing was sent. -/
  | created
  /-- The commit transaction was accepted by the node. -/
  | committed
  /-- The commitment waits for its reveal. -/
  | pendingReveal
  | revealed
  /-- The oracle no longer takes the seed. -/
  | expired
  /-- The commit transaction was refused or reverted. -/
  | abandoned
deriving DecidableEq, Repr

namespace Status

def isTerminal : Status → Bool
  | revealed | expired | abandoned => true
  | created | committed | pendingReveal => false

/-- The number that stands for a status in a stored record. -/
def tag : Status → Nat
  | created => 0
  | committed => 1
  | pendingReveal => 2
  | revealed => 3
  | expired => 4
  | abandoned => 5

def ofTag? : Nat → Option Status
  | 0 => some created
  | 1 => some committed
  | 2 => some pendingReveal
  | 3 => some revealed
  | 4 => some expired
  | 5 => some abandoned
  | _ => none

@[simp] theorem ofTag?_tag (s : Status) : ofTag? s.tag = some s := by
  cases s <;> rfl

theorem tag_lt (s : Status) : s.tag < 6 := by
  cases s <;> decide

theorem ofTag?_eq_some_iff {n : Nat} {s : Status} : ofTag? n = some s ↔ n = s.tag := by
  constructor
  · intro h
    unfold ofTag? at h
    split at h <;> cases h <;> rfl
  · rintro rfl
    exact ofTag?_tag s

end Status

end CommitReveal
