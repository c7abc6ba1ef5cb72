import CommitReveal.Word

/-! The figures of a scan and the sentence that sums them up. -/
namespace CommitReveal

structure ScanStats where
  startBlock : Word
  highest : Word
  backfillWindows : Nat
  liveWindows : Nat
  dispatched : Nat
  foreign : Nat
  undecodable : Nat
  gaps : Nat
  /-- The last block before and the first after the latest gap. -/
  lastGap : Option (Word × Word)
deriving DecidableEq, Repr

/-- The figures that count. -/
def ScanStats.counters (s : ScanStats) : List Nat :=
  [s.backfillWindows, s.liveWindows, s.dispatched, s.foreign, s.undecodable, s.gaps]

/-- A machine word holds every count. -/
def ScanStats.Fits (s : ScanStats) : Prop :=
  ∀ n ∈ s.counters, n < UInt64.size

def ScanStats.summary (s : ScanStats) : String :=
  s!"Scanned blocks {s.startBlock} to {s.highest} in {s.backfillWindows} backfill and " ++
    s!"{s.liveWindows} live windows: {s.dispatched} events handled, {s.foreign} foreign, " ++
    s!"{s.undecodable} undecodable" ++ if s.gaps = 0 then "" else s!" ({s.gaps} gaps)"

end CommitReveal
