import CommitReveal.Proofs.ScanStep
import CommitReveal.Proofs.Solo

/-! A scan of any number of steps. Whatever heads are reported and whatever fails, it covers every
block once, from its start to its cursor, and never one beyond the head that it was told of. -/
namespace CommitReveal.Agent

open Program
open ScanWindow (Chained)

variable {s : Settings} {e e' : EventSync} {w : ScanWindow} {logs : List EventLog}
  {p p' : Progress} {t : Transcript interface} {ts : List (Transcript interface)}

def tally (p : Progress) : Nat :=
  p.stats.dispatched + p.stats.foreign + p.stats.undecodable

structure OnlyLogs (p p' : Progress) : Prop where
  lastEnd : p'.lastEnd = p.lastEnd
  gaps : p'.stats.gaps = p.stats.gaps
  highest : p'.stats.highest = p.stats.highest
  windows : p'.stats.backfillWindows + p'.stats.liveWindows =
    p.stats.backfillWindows + p.stats.liveWindows

theorem onlyLogs_recordDispatch (p : Progress) (outcome : DispatchOutcome) :
    OnlyLogs p (p.recordDispatch outcome) ∧ tally (p.recordDispatch outcome) = tally p + 1 := by
  unfold tally
  cases outcome <;> exact ⟨⟨rfl, rfl, rfl, rfl⟩, by simp only [Progress.recordDispatch]; omega⟩

theorem onlyLogs_dispatchAll {agent : Address} {handlers : List Handler} {mode : ScanMode}
    (h : (dispatchAll agent handlers mode p logs).Reaches t (.done p')) :
    OnlyLogs p p' ∧ tally p' = tally p + logs.length := by
  induction logs generalizing p t with
  | nil =>
    cases h
    exact ⟨⟨rfl, rfl, rfl, rfl⟩, rfl⟩
  | cons log rest ih =>
    obtain ⟨t₁, t₂, outcome, rfl, -, hrest⟩ := Reaches.of_bind h
    obtain ⟨hfirst, hone⟩ := onlyLogs_recordDispatch p outcome
    obtain ⟨honly, htally⟩ := ih hrest
    refine ⟨⟨honly.lastEnd.trans hfirst.lastEnd, honly.gaps.trans hfirst.gaps,
      honly.highest.trans hfirst.highest, honly.windows.trans hfirst.windows⟩, ?_⟩
    rw [htally, hone, List.length_cons]
    omega

theorem log_eq (p : Progress) (force : Bool) :
    (p.log force).1.stats = p.stats ∧ (p.log force).1.lastEnd = p.lastEnd := by
  unfold Progress.log
  split <;> exact ⟨rfl, rfl⟩

theorem recordWindow_follows (hlast : ∀ last, p.lastEnd = some last → Word.add? last 1 = some w.first) :
    ∃ recorded, p.recordWindow w = .ok recorded ∧ recorded.1.lastEnd = some w.last ∧
      recorded.1.stats.gaps = p.stats.gaps ∧
      recorded.1.stats.highest = max p.stats.highest w.last ∧
      recorded.1.stats.backfillWindows + recorded.1.stats.liveWindows =
        p.stats.backfillWindows + p.stats.liveWindows + 1 ∧ tally recorded.1 = tally p := by
  have hgap : p.gapBefore w = .ok none := by
    unfold Progress.gapBefore
    cases hl : p.lastEnd with
    | none => rfl
    | some last => simp [hlast last hl]
  unfold Progress.recordWindow
  rw [hgap]
  refine ⟨_, rfl, rfl, rfl, rfl, ?_, rfl⟩
  show p.stats.backfillWindows + _ + (p.stats.liveWindows + _) = _
  cases w.mode <;> simp only [reduceCtorEq, if_true, if_false] <;> omega

/-- Steps one after another, each from where the one before it ended. -/
inductive Steps (s : Settings) (e : EventSync) : List (Transcript interface) → EventSync → Prop
  | nil : Steps s e [] e
  | snoc {e' : EventSync} {ts : List (Transcript interface)} {t : Transcript interface}
    {result : StepOutcome × EventSync} (steps : Steps s e ts e')
    (last : (scanStep s e').Reaches t (.done result)) : Steps s e (ts ++ [t]) result.2

/-- The windows that were fetched, with their logs. -/
def scans (ts : List (Transcript interface)) : List (ScanWindow × List EventLog) :=
  ts.flatMap fetched

theorem scans_snoc (ts : List (Transcript interface)) (t : Transcript interface) :
    scans (ts ++ [t]) = scans ts ++ fetched t := by
  unfold scans
  rw [List.flatMap_append, List.flatMap_singleton]

/-- What a scan from `start` to the state `e` knows of itself, after these windows. -/
structure Tracked (start : Word) (xs : List (ScanWindow × List EventLog)) (e : EventSync) : Prop where
  chained : Chained start (xs.map (·.1)) e.cursor
  lastEnd : ∀ last, e.progress.lastEnd = some last → Word.add? last 1 = some e.cursor
  gaps : e.progress.stats.gaps = 0
  fresh : xs = [] → e.progress.stats.highest = start
  highest : xs ≠ [] → e.progress.stats.highest.toNat + 1 = e.cursor.toNat
  windows : e.progress.stats.backfillWindows + e.progress.stats.liveWindows = xs.length
  logs : tally e.progress = (xs.flatMap (·.2)).length

theorem tracked_start (start : Word) (handlers : List Handler) (confirmations : Word) :
    Tracked start [] (.start start handlers confirmations) where
  chained := .nil start
  lastEnd _ hlast := nomatch hlast
  gaps := rfl
  fresh _ := rfl
  highest hne := absurd rfl hne
  windows := rfl
  logs := rfl

theorem Tracked.highest_le {start : Word} {xs : List (ScanWindow × List EventLog)}
    (h : Tracked start xs e) : e.progress.stats.highest.toNat ≤ e.cursor.toNat := by
  by_cases hxs : xs = []
  · rw [h.fresh hxs]
    have hchained := h.chained
    rw [hxs] at hchained
    cases hchained
    exact Nat.le_refl _
  · have hhighest := h.highest hxs
    omega

theorem Tracked.snoc {start cursor : Word} {xs : List (ScanWindow × List EventLog)}
    (h : Tracked start xs e) (hscanned : Scanned s e w logs p t)
    (hadd : Word.add? w.last 1 = some cursor) :
    ∃ recorded, p.recordWindow w = .ok recorded ∧ Tracked start (xs ++ [(w, logs)])
      { e with cursor, progress := (recorded.1.log false).1 } := by
  obtain ⟨hfirst, hlt⟩ := hscanned.follows
  obtain ⟨_, _, _, _, _, -, -, hreach, -⟩ := hscanned
  obtain ⟨honly, htally⟩ := onlyLogs_dispatchAll hreach
  have hlast : ∀ last, p.lastEnd = some last → Word.add? last 1 = some w.first := by
    intro last hp
    rw [hfirst]
    exact h.lastEnd last (honly.lastEnd ▸ hp)
  obtain ⟨recorded, hrecord, hend, hgaps, hhighest, hwindows, hlogs⟩ := recordWindow_follows hlast
  refine ⟨recorded, hrecord, ?_⟩
  obtain ⟨hstats, hlastEnd⟩ := log_eq recorded.1 false
  have hbehind : w.last.toNat + 1 = cursor.toNat := Word.add?_eq_some_iff.1 hadd
  have htop : recorded.1.stats.highest = w.last := by
    have hle := h.highest_le
    rw [hhighest, honly.highest]
    exact if_pos (by rw [UInt64.le_iff_toNat_le]; omega)
  constructor
  · rw [List.map_append]
    exact Chained.snoc (hfirst ▸ h.chained) hadd
  · intro last hl
    rw [hlastEnd, hend] at hl
    exact Option.some.inj hl ▸ hadd
  · rw [hstats, hgaps, honly.gaps, h.gaps]
  · simp
  · intro _
    rw [hstats, htop, hbehind]
  · rw [hstats, hwindows, honly.windows, h.windows, List.length_append, List.length_singleton]
  · have hsum : tally (recorded.1.log false).1 = tally recorded.1 := by
      unfold tally
      rw [hstats]
    have hlength : (inChainOrder logs).length = logs.length := List.length_mergeSort logs
    rw [hsum, hlogs, htally, h.logs, hlength, List.flatMap_append, List.flatMap_singleton,
      List.length_append]

theorem Tracked.fits {start : Word} {xs : List (ScanWindow × List EventLog)} (h : Tracked start xs e)
    (hxs : 2 * xs.length < UInt64.size) (hlogs : (xs.flatMap (·.2)).length < UInt64.size) :
    e.progress.stats.Fits := by
  have hgaps := h.gaps
  have hwindows := h.windows
  have hsum : _ + _ + _ = _ := h.logs
  intro n hn
  simp only [ScanStats.counters, List.mem_cons, List.not_mem_nil, or_false] at hn
  omega

/-- The window keeps within the head read before it, less the confirmations. -/
def Within (confirmations : Word) (t : Transcript interface) (w : ScanWindow) : Prop :=
  ∃ head, headsRead t = [head] ∧ w.first < w.last ∧ w.last ≤ Word.saturatingSub head confirmations

theorem within_of_select {head : Word} (hhead : headsRead t = [head])
    (hselect : ScanWindow.select (Word.saturatingSub head e.confirmations) e.cursor = .ok (some w)) :
    w.first = e.cursor ∧ Within e.confirmations t w := by
  obtain ⟨hfirst, hlt, hle⟩ := ScanWindow.of_select hselect
  refine ⟨hfirst, head, hhead, ?_, ?_⟩
  · rw [UInt64.lt_iff_toNat_lt, hfirst]
    exact hlt
  · rw [UInt64.le_iff_toNat_le]
    exact hle

theorem Finished.scanned {result : StepOutcome × EventSync} (h : Finished s e result t) :
    ∀ x ∈ fetched t, Within e.confirmations t x.1 ∧ Dispatched s e.handlers x.1 x.2 t := by
  intro x hx
  rcases h with ⟨-, hnone⟩ | ⟨w, logs, p, _, _, hscanned, -⟩
  · rw [hnone] at hx
    cases hx
  · rw [hscanned.fetched_eq] at hx
    obtain rfl := List.mem_singleton.1 hx
    obtain ⟨head, hhead, hselect⟩ := hscanned.headsRead_eq
    exact ⟨(within_of_select hhead hselect).2, hscanned.dispatched⟩

/-- What steps from `start` have done. -/
structure Covers (s : Settings) (start : Word) (handlers : List Handler) (confirmations : Word)
    (ts : List (Transcript interface)) (e : EventSync) : Prop where
  told : e.handlers = handlers
  kept : e.confirmations = confirmations
  tracked : Tracked start (scans ts) e
  scanned : ∀ t ∈ ts, ∀ x ∈ fetched t,
    Within confirmations t x.1 ∧ Dispatched s handlers x.1 x.2 t

theorem Covers.step {start confirmations : Word} {handlers : List Handler}
    {result : StepOutcome × EventSync} (h : Covers s start handlers confirmations ts e)
    (hreach : (scanStep s e).Reaches t (.done result)) :
    Covers s start handlers confirmations (ts ++ [t]) result.2 := by
  have hfinished : Finished s e result t := (scanStep_meets s e).reached hreach
  have hscans := scans_snoc ts t
  have hscanned : ∀ t' ∈ ts ++ [t], ∀ x ∈ fetched t',
      Within confirmations t' x.1 ∧ Dispatched s handlers x.1 x.2 t' := by
    intro t' ht'
    rcases List.mem_append.1 ht' with hmem | hmem
    · exact h.scanned t' hmem
    · rw [List.mem_singleton.1 hmem, ← h.told, ← h.kept]
      exact hfinished.scanned
  rcases hfinished with ⟨hsame, hnone⟩ | ⟨w, logs, p, cursor, recorded, hlast, hadd, hrecord, heq⟩
  · rw [hnone, List.append_nil] at hscans
    rw [hsame]
    exact ⟨h.told, h.kept, hscans ▸ h.tracked, hscanned⟩
  · obtain ⟨recorded', hrecord', htracked⟩ := h.tracked.snoc hlast hadd
    obtain rfl := Except.ok.inj (hrecord.symm.trans hrecord')
    rw [hlast.fetched_eq] at hscans
    rw [heq]
    exact ⟨h.told, h.kept, hscans ▸ htracked, hscanned⟩

theorem covers_of_steps {start confirmations : Word} {handlers : List Handler}
    (hsteps : Steps s (.start start handlers confirmations) ts e) :
    Covers s start handlers confirmations ts e := by
  induction hsteps with
  | nil =>
    exact ⟨rfl, rfl, tracked_start start handlers confirmations, fun _ h => nomatch h⟩
  | snoc _ last ih => exact ih.step last

/-- Below the last block number no step gets stuck. -/
theorem Covers.not_stuck {start confirmations : Word} {handlers : List Handler}
    (h : Covers s start handlers confirmations ts e)
    (hheads : ∀ head ∈ headsRead t, (Word.saturatingSub head confirmations).toNat < UInt64.size - 1) :
    ¬Stuck s e t := by
  rintro (⟨head, f, -, hselect⟩ | ⟨w, logs, p, hscanned, hbeyond⟩)
  · obtain ⟨window, hwindow, -⟩ := ScanWindow.select_spec
      (Word.saturatingSub head e.confirmations) e.cursor
    cases hwindow.symm.trans hselect
  · obtain ⟨head, hhead, hselect⟩ := hscanned.headsRead_eq
    obtain ⟨-, head', hhead', -, hle⟩ := within_of_select hhead hselect
    rw [UInt64.le_iff_toNat_le, h.kept] at hle
    have hbound := hheads head' (by rw [hhead']; exact List.mem_singleton_self head')
    cases hadd : Word.add? w.last 1 with
    | none =>
      have hbig : UInt64.size ≤ w.last.toNat + 1 := Word.add?_eq_none_iff.1 hadd
      omega
    | some cursor =>
      obtain ⟨recorded, hrecord, -⟩ := h.tracked.snoc hscanned hadd
      rcases hbeyond with hnone | ⟨f, herror⟩
      · cases hadd.symm.trans hnone
      · cases hrecord.symm.trans herror

/-- Whatever heads and logs a scan is told of, and whatever fails on the way, it covers every block from
its start to its cursor once, and none beyond the confirmed head. -/
theorem scan_covers_once {start confirmations : Word} {handlers : List Handler}
    {q : Activity (StepOutcome × EventSync)}
    (hsteps : Steps s (.start start handlers confirmations) ts e) (hnext : (scanStep s e).Reaches t q)
    (hheads : ∀ head ∈ headsRead t, (Word.saturatingSub head confirmations).toNat < UInt64.size - 1) :
    Chained start ((scans ts).map (·.1)) e.cursor ∧
    (∀ t' ∈ ts, ∀ x ∈ fetched t', Within confirmations t' x.1 ∧ Dispatched s handlers x.1 x.2 t') ∧
    (∀ w initial limit next, q = .ask (.logs w initial limit) next →
      w.first = e.cursor ∧ Within confirmations t w) ∧
    (∀ f next, q ≠ .ask (.abort f) next) ∧
    (∀ b, (scans ts).countP (·.1.covers b) = if start ≤ b ∧ b < e.cursor then 1 else 0) ∧
    e.progress.stats.gaps = 0 ∧
    (scans ts = [] → e.progress.stats.highest = start) ∧
    (scans ts ≠ [] → e.progress.stats.highest.toNat + 1 = e.cursor.toNat) ∧
    e.progress.stats.backfillWindows + e.progress.stats.liveWindows = (scans ts).length ∧
    2 * (scans ts).length < UInt64.size ∧
    e.progress.stats.dispatched + e.progress.stats.foreign + e.progress.stats.undecodable =
      ((scans ts).flatMap (·.2)).length ∧
    (((scans ts).flatMap (·.2)).length < UInt64.size → e.progress.stats.Fits) := by
  have hcovers := covers_of_steps hsteps
  have htracked := hcovers.tracked
  have hmeets : q.Upholds (watched (Meets s e)) (Finished s e) t := (scanStep_meets s e).reached hnext
  have hwide : ∀ w ∈ (scans ts).map (·.1), w.first.toNat < w.last.toNat := by
    intro w hw
    obtain ⟨x, hx, rfl⟩ := List.mem_map.1 hw
    obtain ⟨t', ht', hx⟩ := List.mem_flatMap.1 hx
    obtain ⟨⟨_, -, hlt, -⟩, -⟩ := hcovers.scanned t' ht' x hx
    exact UInt64.lt_iff_toNat_lt.1 hlt
  have hshort : 2 * (scans ts).length < UInt64.size := by
    have hlength := htracked.chained.length_le hwide
    have hcursor : e.cursor.toNat < UInt64.size := e.cursor.toNat_lt
    rw [List.length_map] at hlength
    omega
  refine ⟨htracked.chained, hcovers.scanned, ?_, ?_, ?_, htracked.gaps, htracked.fresh,
    htracked.highest, htracked.windows, hshort, htracked.logs, htracked.fits hshort⟩
  · intro w initial limit next hq
    subst hq
    obtain ⟨head, rfl, hselect⟩ := (upholds_watched.1 hmeets).1
    rw [← hcovers.kept]
    exact within_of_select rfl hselect
  · intro f next hq
    subst hq
    exact hcovers.not_stuck hheads (upholds_watched.1 hmeets).1
  · intro b
    have hcount := (htracked.chained.countP_covers fun w hw => Nat.le_of_lt (hwide w hw)).2 b
    rw [List.countP_map] at hcount
    exact hcount

def loggedAt (block : Word) (index : Nat) (event : OracleEvent) : EventLog :=
  event.toLog usual.oracle (some block) (some index)

def awaited : OracleEvent :=
  .subscribed usual.agent (.fill 20 5) (.fill 32 3)

/-- A first step from block 10 with five confirmations: the head is 25, a log of the blocks 10 to 20 comes, of
a hash that the store has no seed of, and the store takes the new place or not. -/
def firstStep (stored : Except Store.StoreError Unit) : Transcript interface :=
  [⟨.chain .blockNumber, .ok 25⟩,
    ⟨.logs ⟨10, 20, .live⟩ (.ofMillis usual.timings.backoffInitial) (.ofMillis usual.timings.backoffLimit),
      some [loggedAt 15 0 awaited]⟩,
    ⟨.store (.call (.get (Repository.key .seed (.fill 32 3)))), .ok none⟩,
    ⟨.store (.call (.set Repository.cursorKey (Bytes.ofNatBE 8 21))), stored⟩,
    ⟨.notify (match stored with
      | .ok () => .cursorAdvanced 21
      | .error cause => .cursorNotPersisted 21 cause), ()⟩]

def behindFirst : EventSync :=
  ⟨21, ⟨⟨10, 20, 0, 1, 1, 0, 0, 0, none⟩, some 20, 10⟩, [.revealTrigger], 5⟩

theorem reaches_firstStep (stored : Except Store.StoreError Unit) :
    (scanStep usual (.start 10 [.revealTrigger] 5)).Reaches (firstStep stored)
      (.done (.scanned ⟨10, 20, .live⟩ 1, behindFirst)) := by
  have horder : inChainOrder [loggedAt 15 0 awaited] = [loggedAt 15 0 awaited] :=
    List.mergeSort_singleton (loggedAt 15 0 awaited)
  refine .asked (.asked ?_)
  show Reaches ((scanWindow usual _ _ [loggedAt 15 0 awaited]).bind _) _ _
  unfold scanWindow
  rw [horder]
  cases stored with
  | ok _ => exact .asked (.asked (.asked (.here _)))
  | error cause => exact .asked (.asked (.asked (.here _)))

theorem called_of_dispatched (h : Dispatched usual [.revealTrigger] w logs t)
    (hfetched : fetched t = [(⟨10, 20, .live⟩, [loggedAt 15 0 awaited])]) :
    ∃ during, during.Sublist t ∧ Called .live [(.revealTrigger, awaited)] during := by
  have hmem : (w, logs) ∈ fetched t := h.mem_fetched
  rw [hfetched] at hmem
  obtain ⟨rfl, rfl⟩ := Prod.mk.inj (List.mem_singleton.1 hmem)
  obtain ⟨before, initial, limit, ordered, during, after, rfl, hordered, hcalled⟩ := h
  have hone : ordered = [loggedAt 15 0 awaited] := List.perm_singleton.1 hordered.perm
  subst hone
  refine ⟨during, ?_, hcalled⟩
  exact ((List.sublist_append_left during after).trans (List.sublist_cons_self ..)).trans
    (List.sublist_append_right ..)

theorem scan_covers_once_firstStep : ∃ (ts : List (Transcript interface)) (t : Transcript interface)
    (e : EventSync) (q : Activity (StepOutcome × EventSync)),
    Steps usual (.start 10 [.revealTrigger] 5) ts e ∧ (scanStep usual e).Reaches t q ∧
      (∀ head ∈ headsRead t, (Word.saturatingSub head 5).toNat < UInt64.size - 1) ∧
      e.cursor = 21 ∧ e.progress.stats.dispatched = 1 ∧
      (∃ t' ∈ ts, ∃ during, during.Sublist t' ∧ Called .live [(.revealTrigger, awaited)] during) ∧
      (∃ w initial limit next, q = .ask (.logs w initial limit) next ∧
        w.first = e.cursor ∧ Within 5 t w) ∧
      ∀ b, (scans ts).countP (·.1.covers b) = if 10 ≤ b ∧ b < e.cursor then 1 else 0 := by
  have hsteps : Steps usual (.start 10 [.revealTrigger] 5)
      [firstStep (.error (.io "disk full"))] behindFirst :=
    Steps.nil.snoc (reaches_firstStep _)
  have hnext : (scanStep usual behindFirst).Reaches [⟨.chain .blockNumber, .ok 40⟩] _ :=
    .asked (.here _)
  have hheads : ∀ head ∈ headsRead [⟨.chain .blockNumber, .ok 40⟩],
      (Word.saturatingSub head 5).toNat < UInt64.size - 1 := by
    intro head hhead
    rw [List.mem_singleton.1 hhead]
    decide
  obtain ⟨-, hdispatched, hasked, -, hcount, -⟩ := scan_covers_once hsteps hnext hheads
  have hfirst := List.mem_singleton_self (firstStep (.error (.io "disk full")))
  obtain ⟨during, hsub, hcalled⟩ :=
    called_of_dispatched (hdispatched _ hfirst _ (List.mem_singleton_self _)).2 rfl
  refine ⟨_, _, _, _, hsteps, hnext, hheads, rfl, rfl, ⟨_, hfirst, during, hsub, hcalled⟩, ?_, hcount⟩
  exact ⟨⟨21, 31, .live⟩, _, _, _, rfl, hasked _ _ _ _ rfl⟩

end CommitReveal.Agent
