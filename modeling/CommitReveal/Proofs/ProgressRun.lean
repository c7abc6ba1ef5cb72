import CommitReveal.Proofs.Coverage
import CommitReveal.Scan.Progress

/-! What the record of a scan says after any number of entries. Each entry is judged by the end of the window before
it alone; what the figures say in the end is said of all blocks and all windows. -/
namespace CommitReveal

theorem Word.max_cases (a b : Word) : max a b = a ∧ b ≤ a ∨ max a b = b ∧ a ≤ b := by
  have hmax : max a b = if a ≤ b then b else a := rfl
  rw [hmax]
  split
  · exact .inr ⟨rfl, by assumption⟩
  · rename_i hlt
    exact .inl ⟨rfl, UInt64.le_of_lt (UInt64.not_le.1 hlt)⟩

theorem Word.left_le_max (a b : Word) : a ≤ max a b := by
  rcases max_cases a b with ⟨hmax, -⟩ | ⟨hmax, hle⟩ <;> rw [hmax]
  · exact UInt64.le_refl a
  · exact hle

theorem Word.right_le_max (a b : Word) : b ≤ max a b := by
  rcases max_cases a b with ⟨hmax, hle⟩ | ⟨hmax, -⟩ <;> rw [hmax]
  · exact hle
  · exact UInt64.le_refl b

namespace Progress

open ScanWindow (Covered Ordered SkippedRun Spanned hole holes)

/-- What the record is told: a window that was scanned, what became of a log, or that a progress line may be written. -/
inductive Entry where
  | window (w : ScanWindow)
  | dispatch (outcome : DispatchOutcome)
  | line (force : Bool)
deriving DecidableEq, Repr

def note (p : Progress) : Entry → Except Fault (Progress × List Notice)
  | .window w => p.recordWindow w
  | .dispatch outcome => .ok (p.recordDispatch outcome, [])
  | .line force => .ok (p.log force)

def run (p : Progress) (es : List Entry) : Except Fault (Progress × List Notice) :=
  es.foldlM (fun r e => do
    let (p, more) ← r.1.note e
    return (p, r.2 ++ more)) (p, [])

def Entry.window? : Entry → Option ScanWindow
  | .window w => some w
  | .dispatch _ => none
  | .line _ => none

def Entry.outcome? : Entry → Option DispatchOutcome
  | .window _ => none
  | .dispatch outcome => some outcome
  | .line _ => none

def windows (es : List Entry) : List ScanWindow :=
  es.filterMap Entry.window?

def outcomes (es : List Entry) : List DispatchOutcome :=
  es.filterMap Entry.outcome?

section Run

variable {start : Word} {es : List Entry} {e : Entry} {ws : List ScanWindow} {w : ScanWindow} {logs : Nat}
  {p : Progress} {ns : List Notice}

theorem windows_concat (es : List Entry) (e : Entry) : windows (es ++ [e]) = windows es ++ e.window?.toList := by
  cases e <;> simp [windows, Entry.window?]

theorem outcomes_concat (es : List Entry) (e : Entry) :
    outcomes (es ++ [e]) = outcomes es ++ e.outcome?.toList := by
  cases e <;> simp [outcomes, Entry.outcome?]

theorem bounded_of_concat (h : ∀ w ∈ windows (es ++ [e]), w.last.toNat < UInt64.size - 1) :
    ∀ w ∈ windows es, w.last.toNat < UInt64.size - 1 :=
  fun w hw => h w (windows_concat es e ▸ List.mem_append_left _ hw)

theorem run_concat {r : Progress × List Notice} (h : p.run es = .ok r) {r' : Progress × List Notice}
    (he : r.1.note e = .ok r') : p.run (es ++ [e]) = .ok (r'.1, r.2 ++ r'.2) := by
  unfold run at h ⊢
  rw [List.foldlM_append, h]
  simp [bind, Except.bind, he, pure, Except.pure]

/-- What the record has noted and told of so many windows and logs. -/
structure Recorded (start : Word) (ws : List ScanWindow) (logs : Nat) (p : Progress) (ns : List Notice) : Prop where
  lastEnd : p.lastEnd = ws.getLast?.map (·.last)
  gaps : p.stats.gaps = (holes ws).length
  lastGap : p.stats.lastGap = (holes ws).getLast?
  highest : p.stats.highest = start ∨ ∃ w ∈ ws, w.last = p.stats.highest
  start_le : start ≤ p.stats.highest
  last_le : ∀ w ∈ ws, w.last ≤ p.stats.highest
  scanned : p.stats.backfillWindows + p.stats.liveWindows = ws.length
  logs : p.stats.dispatched + p.stats.foreign + p.stats.undecodable = logs
  told : ∀ x y, .gap x y ∈ ns ↔ (x, y) ∈ holes ws

theorem recorded_start (start : Word) : Recorded start [] 0 (.start start) [] where
  lastEnd := rfl
  gaps := rfl
  lastGap := rfl
  highest := .inl rfl
  start_le := UInt64.le_refl start
  last_le _ hw := nomatch hw
  scanned := rfl
  logs := rfl
  told _ _ := by simp [holes]

theorem gapBefore_eq {v? : Option ScanWindow} (hlast : p.lastEnd = v?.map (·.last))
    (hv : ∀ v ∈ v?, v.last.toNat < UInt64.size - 1) : p.gapBefore w = .ok (v?.bind (hole · w)) := by
  unfold gapBefore
  cases v? with
  | none => rw [hlast]; rfl
  | some v =>
    have hroom := hv v rfl
    obtain ⟨expected, hadd⟩ : ∃ expected, Word.add? v.last 1 = some expected := by
      refine Option.ne_none_iff_exists'.1 fun hnone => ?_
      have hbig := Word.add?_eq_none_iff.1 hnone
      have hone : (1 : Word).toNat = 1 := rfl
      omega
    have hexpected : v.last.toNat + 1 = expected.toNat := Word.add?_eq_some_iff.1 hadd
    have hiff : w.first = expected ↔ v.last.toNat + 1 = w.first.toNat := by
      rw [← UInt64.toNat_inj, hexpected]
      exact eq_comm
    rw [hlast]
    simp only [Option.map_some, hadd, hiff, hole, Option.bind_some]

theorem Recorded.window (h : Recorded start ws logs p ns) (hbounded : ∀ v ∈ ws, v.last.toNat < UInt64.size - 1) :
    ∃ r, p.recordWindow w = .ok r ∧ Recorded start (ws ++ [w]) logs r.1 (ns ++ r.2) := by
  have hgap : p.gapBefore w = .ok (ws.getLast?.bind (hole · w)) :=
    gapBefore_eq h.lastEnd fun v hv => hbounded v (List.mem_of_getLast? hv)
  have hholes := ScanWindow.holes_concat ws w
  unfold recordWindow
  rw [hgap]
  -- from here on `gap` is what the window adds to the holes, one or none
  generalize ws.getLast?.bind (hole · w) = gap at hholes
  refine ⟨_, rfl, ?_⟩
  constructor
  case lastEnd =>
    rw [List.getLast?_concat]
    rfl
  case gaps =>
    rw [hholes, List.length_append, ← h.gaps]
    cases gap <;> rfl
  case lastGap =>
    rw [hholes, List.getLast?_append, ← h.lastGap]
    cases gap <;> rfl
  case highest =>
    show max p.stats.highest w.last = start ∨ ∃ v ∈ ws ++ [w], v.last = max p.stats.highest w.last
    rcases Word.max_cases p.stats.highest w.last with ⟨hmax, -⟩ | ⟨hmax, -⟩ <;> rw [hmax]
    · exact h.highest.imp_right fun ⟨v, hv, hlast⟩ => ⟨v, List.mem_append_left _ hv, hlast⟩
    · exact .inr ⟨w, List.mem_append_right _ List.mem_cons_self, rfl⟩
  case start_le => exact UInt64.le_trans h.start_le (Word.left_le_max _ _)
  case last_le =>
    intro v hv
    rcases List.mem_append.1 hv with hv | hv
    · exact UInt64.le_trans (h.last_le v hv) (Word.left_le_max _ _)
    · obtain rfl := List.mem_singleton.1 hv
      exact Word.right_le_max _ _
  case scanned =>
    rw [List.length_append, ← h.scanned]
    show p.stats.backfillWindows + _ + (p.stats.liveWindows + _) = _
    cases w.mode <;> simp only [reduceCtorEq, if_true, if_false, List.length_singleton] <;> omega
  case logs => exact h.logs
  case told =>
    intro x y
    rw [hholes, List.mem_append, List.mem_append, h.told]
    cases gap <;> simp [Prod.ext_iff]

theorem Recorded.dispatch (h : Recorded start ws logs p ns) (outcome : DispatchOutcome) :
    Recorded start ws (logs + 1) (p.recordDispatch outcome) ns := by
  have hlogs := h.logs
  cases outcome <;> exact { h with logs := by simp only [recordDispatch]; omega }

theorem Recorded.line (h : Recorded start ws logs p ns) (force : Bool) :
    Recorded start ws logs (p.log force).1 (ns ++ (p.log force).2) := by
  unfold log
  split
  · exact { h with told := fun x y => by simp [h.told] }
  · exact { h with told := fun x y => by simp [h.told] }

theorem Recorded.step (h : Recorded start (windows es) (outcomes es).length p ns)
    (hbounded : ∀ w ∈ windows es, w.last.toNat < UInt64.size - 1) :
    ∃ r, p.note e = .ok r ∧
      Recorded start (windows (es ++ [e])) (outcomes (es ++ [e])).length r.1 (ns ++ r.2) := by
  rw [windows_concat, outcomes_concat, List.length_append]
  cases e with
  | window w => exact h.window hbounded
  | dispatch outcome =>
    rw [Entry.window?, Option.toList_none, List.append_nil]
    exact ⟨_, rfl, (List.append_nil ns).symm ▸ h.dispatch outcome⟩
  | line force =>
    rw [Entry.window?, Option.toList_none, List.append_nil]
    exact ⟨_, rfl, h.line force⟩

theorem exists_recorded (start : Word) (h : ∀ w ∈ windows es, w.last.toNat < UInt64.size - 1) :
    ∃ r, (Progress.start start).run es = .ok r ∧ Recorded start (windows es) (outcomes es).length r.1 r.2 := by
  -- on the last entry, since each is judged by those before it
  induction es using List.reverseRecOn with
  | nil => exact ⟨_, rfl, recorded_start start⟩
  | append_singleton es e ih =>
    have hes := bounded_of_concat h
    obtain ⟨r, hrun, hrecorded⟩ := ih hes
    obtain ⟨r', hnote, hrecorded'⟩ := hrecorded.step hes
    exact ⟨_, run_concat hrun hnote, hrecorded'⟩

/-- No count is above that of the windows or that of the logs. -/
theorem Recorded.fits (h : Recorded start ws logs p ns) (hws : ws.length < UInt64.size) (hlogs : logs < UInt64.size) :
    p.stats.Fits := by
  have hholes := ScanWindow.length_holes_le ws
  have hgaps := h.gaps
  have hscanned := h.scanned
  have hsum := h.logs
  intro n hn
  simp only [ScanStats.counters, List.mem_cons, List.not_mem_nil, or_false] at hn
  omega

/-- If the windows are in order, there are as many gaps as there are runs of blocks that no window has,
and there is a notice of each. -/
theorem skipped_blocks_reported (start : Word) {es : List Entry} (h : Ordered (windows es)) :
    ∃ p ns, (Progress.start start).run es = .ok (p, ns) ∧
      {run : Nat × Nat | SkippedRun (windows es) run.1 run.2}.encard = p.stats.gaps ∧
      (p.stats.gaps = 0 ↔ ∀ n, Spanned (windows es) n → Covered (windows es) n) ∧
      (∀ x y, .gap x y ∈ ns ↔ ∃ a b, SkippedRun (windows es) a b ∧ x.toNat + 1 = a ∧ b + 1 = y.toNat) ∧
      (∀ x y, p.stats.lastGap = some (x, y) ↔ ∃ a b, SkippedRun (windows es) a b ∧
        (∀ a' b', SkippedRun (windows es) a' b' → b' ≤ b) ∧ x.toNat + 1 = a ∧ b + 1 = y.toNat) ∧
      (p.stats.highest = start ∨ ∃ w ∈ windows es, w.last = p.stats.highest) ∧
      start ≤ p.stats.highest ∧ (∀ w ∈ windows es, w.last ≤ p.stats.highest) ∧
      p.stats.backfillWindows + p.stats.liveWindows = (windows es).length ∧
      p.stats.dispatched + p.stats.foreign + p.stats.undecodable = (outcomes es).length ∧
      ((outcomes es).length < UInt64.size → p.stats.Fits) := by
  obtain ⟨⟨p, ns⟩, hrun, hrecorded⟩ := exists_recorded start h.bounded
  refine ⟨p, ns, hrun, ?_, ?_, fun x y => ?_, fun x y => ?_, hrecorded.highest, hrecorded.start_le,
    hrecorded.last_le, hrecorded.scanned, hrecorded.logs, hrecorded.fits h.length_lt⟩
  · rw [hrecorded.gaps, ScanWindow.encard_skippedRun h]
  · rw [hrecorded.gaps, List.length_eq_zero_iff, ScanWindow.holes_eq_nil_iff h]
  · rw [hrecorded.told, ScanWindow.mem_holes_iff h]
  · rw [hrecorded.lastGap, ScanWindow.getLast?_holes_eq_some_iff h]

def twoHoles : List Entry :=
  [.dispatch .foreign, .window ⟨7, 9, .backfill⟩, .window ⟨10, 12, .backfill⟩, .dispatch .dispatched, .line true,
    .window ⟨20, 21, .live⟩, .line false, .window ⟨25, 25, .live⟩, .dispatch .undecodable]

theorem ordered_twoHoles : Ordered (windows twoHoles) where
  nonempty := by decide
  bounded := by decide
  ascending := by decide

theorem skipped_blocks_reported_twoHoles :
    Ordered (windows twoHoles) ∧ ∃ p ns, (Progress.start 5).run twoHoles = .ok (p, ns) ∧
      {run : Nat × Nat | SkippedRun (windows twoHoles) run.1 run.2}.encard = 2 ∧
      .gap 12 20 ∈ ns ∧ SkippedRun (windows twoHoles) 13 19 ∧
      p.stats.lastGap = some (21, 25) ∧ SkippedRun (windows twoHoles) 22 24 := by
  obtain ⟨p, ns, hrun, hcount, -, htold, hlatest, -⟩ := skipped_blocks_reported 5 ordered_twoHoles
  have hfigures : ((Progress.start 5).run twoHoles).map (fun r => (r.1.stats.gaps, r.1.stats.lastGap, r.2)) =
      .ok (2, some (21, 25), [.progress 12 1 1, .gap 12 20, .gap 21 25]) := rfl
  rw [hrun] at hfigures
  obtain ⟨hgaps, hlast, hns⟩ : p.stats.gaps = 2 ∧ p.stats.lastGap = some (21, 25) ∧
      ns = [.progress 12 1 1, .gap 12 20, .gap 21 25] := by
    simpa [Except.map] using hfigures
  have hfirst : .gap 12 20 ∈ ns := by
    rw [hns]
    exact List.mem_cons_of_mem _ List.mem_cons_self
  obtain ⟨_, b, hearly, rfl, hb⟩ := (htold 12 20).1 hfirst
  obtain ⟨_, d, hlate, -, rfl, hd⟩ := (hlatest 21 25).1 hlast
  obtain rfl : b = 19 := Nat.succ.inj hb
  obtain rfl : d = 24 := Nat.succ.inj hd
  exact ⟨ordered_twoHoles, p, ns, hrun, by rw [hcount, hgaps]; rfl, hfirst, hearly, hlast, hlate⟩

end Run

end Progress

end CommitReveal
