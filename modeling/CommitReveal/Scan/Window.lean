import CommitReveal.Fault
import CommitReveal.Word

/-! The next range of blocks to read, chosen by how far the scan lags behind the head. -/
namespace CommitReveal

inductive ScanMode where
  /-- Catching up on history. -/
  | backfill
  /-- Following the head. -/
  | live
deriving DecidableEq, Repr

/-- A range of blocks, both ends included. -/
structure ScanWindow where
  first : Word
  last : Word
  mode : ScanMode
deriving DecidableEq, Repr

namespace ScanWindow

/-- How far beyond its first block a window reaches for a given lag, and its mode. -/
def reach (lag : Word) : Word × ScanMode :=
  if 1000 ≤ lag then (1000, .backfill)
  else if 100 ≤ lag then (100, .backfill)
  else if 10 ≤ lag then (10, .live)
  else (1, .live)

/-- No window while the head is not past the cursor. -/
def select (head cursor : Word) : Except Fault (Option ScanWindow) :=
  if head ≤ cursor then .ok none
  else
    let (size, mode) := reach (head - cursor)
    match Word.add? cursor size with
    | some last => .ok (some ⟨cursor, last, mode⟩)
    | none => .error .overflow

end ScanWindow

end CommitReveal
