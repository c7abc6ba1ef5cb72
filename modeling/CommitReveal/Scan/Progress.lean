import CommitReveal.Notice
import CommitReveal.Scan.Window

/-! What a scan has covered so far. Windows that do not follow one another leave a gap, which is
reported; a progress line comes every thousand blocks, or when it is asked for. -/
namespace CommitReveal

/-- What became of a log. -/
inductive DispatchOutcome where
  | dispatched
  /-- An event of another agent. -/
  | foreign
  | undecodable
deriving DecidableEq, Repr

structure Progress where
  stats : ScanStats
  /-- The last block of the latest window. -/
  lastEnd : Option Word
  /-- The highest block when a progress line was last written. -/
  lastLogged : Word
deriving DecidableEq, Repr

namespace Progress

def start (block : Word) : Progress where
  stats := ⟨block, block, 0, 0, 0, 0, 0, 0, none⟩
  lastEnd := none
  lastLogged := block

/-- Blocks between two progress lines. -/
def stride : Word := 1000

/-- The block before and the block after the hole that a window leaves behind the latest one. -/
def gapBefore (p : Progress) (w : ScanWindow) : Except Fault (Option (Word × Word)) :=
  match p.lastEnd with
  | none => .ok none
  | some before =>
    match Word.add? before 1 with
    | none => .error .overflow
    | some expected => .ok (if w.first = expected then none else some (before, w.first))

def recordWindow (p : Progress) (w : ScanWindow) : Except Fault (Progress × List Notice) := do
  let gap ← p.gapBefore w
  let stats := { p.stats with
    highest := max p.stats.highest w.last
    gaps := p.stats.gaps + if gap.isSome then 1 else 0
    lastGap := gap <|> p.stats.lastGap
    backfillWindows := p.stats.backfillWindows + if w.mode = .backfill then 1 else 0
    liveWindows := p.stats.liveWindows + if w.mode = .live then 1 else 0 }
  let notices := match gap with
    | some (before, after) => [.gap before after]
    | none => []
  return ({ p with stats, lastEnd := some w.last }, notices)

def recordDispatch (p : Progress) (outcome : DispatchOutcome) : Progress :=
  let s := p.stats
  { p with stats := match outcome with
      | .dispatched => { s with dispatched := s.dispatched + 1 }
      | .foreign => { s with foreign := s.foreign + 1 }
      | .undecodable => { s with undecodable := s.undecodable + 1 } }

/-- Whether a line is due: asked for or a stride after the last one, once anything was scanned. -/
def isDue (p : Progress) (force : Bool) : Bool :=
  (force || stride ≤ Word.saturatingSub p.stats.highest p.lastLogged) && p.lastEnd.isSome

def log (p : Progress) (force : Bool) : Progress × List Notice :=
  if p.isDue force then
    ({ p with lastLogged := p.stats.highest },
      [.progress p.stats.highest p.stats.dispatched p.stats.foreign])
  else (p, [])

end Progress

end CommitReveal
