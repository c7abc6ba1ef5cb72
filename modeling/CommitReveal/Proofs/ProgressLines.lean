import CommitReveal.Proofs.Fallible
import CommitReveal.Proofs.ProgressRun

/-! When the record of a scan writes progress lines. A line that was not asked for comes only a stride behind the
one before it, so the blocks scanned pay for it; and where a line might have been written, the last one is never a
stride away. -/
namespace CommitReveal.Progress

/-- A progress line: the highest block it tells, and whether it was asked for. -/
structure Line where
  highest : Word
  forced : Bool
deriving DecidableEq, Repr

def toldBlock? : Notice → Option Word
  | .progress highest _ _ => some highest
  | _ => none

def Entry.lines : Entry → List Notice → List Line
  | .line force, ns => (ns.filterMap toldBlock?).map (⟨·, force⟩)
  | .window _, _ => []
  | .dispatch _, _ => []

/-- The lines of all entries, in their order. -/
def lines (p : Progress) : List Entry → List Line
  | [] => []
  | e :: es =>
    match p.note e with
    | .ok (q, ns) => e.lines ns ++ lines q es
    | .error _ => []

/-- Unless the later of two lines was asked for, it tells of a thousand blocks more. -/
def Line.Apart (a b : Line) : Prop :=
  b.forced = false → a.highest.toNat + 1000 ≤ b.highest.toNat

/-- Neither what was scanned nor what was told of it goes back. -/
structure Precedes (q p : Progress) : Prop where
  highest : q.stats.highest ≤ p.stats.highest
  lastLogged : q.lastLogged ≤ p.lastLogged

section Lines

variable {start : Word} {es : List Entry} {e : Entry} {ws : List ScanWindow} {w : ScanWindow} {ls : List Line}
  {p : Progress} {ns : List Notice} {force : Bool}

theorem Precedes.refl (p : Progress) : Precedes p p :=
  ⟨UInt64.le_refl _, UInt64.le_refl _⟩

theorem Precedes.trans {p₁ p₂ p₃ : Progress} (h : Precedes p₁ p₂) (h' : Precedes p₂ p₃) : Precedes p₁ p₃ :=
  ⟨UInt64.le_trans h.highest h'.highest, UInt64.le_trans h.lastLogged h'.lastLogged⟩

theorem run_concat_eq_ok_iff {r' : Progress × List Notice} : p.run (es ++ [e]) = .ok r' ↔
    ∃ r, p.run es = .ok r ∧ ∃ s, r.1.note e = .ok s ∧ (s.1, r.2 ++ s.2) = r' := by
  constructor
  · intro h
    unfold run at h
    rw [List.foldlM_append] at h
    obtain ⟨r, hr, h⟩ := bind_eq_ok_iff.1 h
    obtain ⟨q, hq, h⟩ := bind_eq_ok_iff.1 h
    obtain ⟨s, hs, hq⟩ := bind_eq_ok_iff.1 hq
    exact ⟨r, hr, s, hs, (Except.ok.inj hq).trans (Except.ok.inj h)⟩
  · rintro ⟨r, hr, s, hs, rfl⟩
    exact run_concat hr hs

theorem lines_append {r : Progress × List Notice} (h : p.run es = .ok r) (rest : List Entry) :
    p.lines (es ++ rest) = p.lines es ++ r.1.lines rest := by
  -- the end of a run is told by its last entry
  induction es using List.reverseRecOn generalizing r rest with
  | nil =>
    obtain rfl := Except.ok.inj h
    rfl
  | append_singleton es e ih =>
    obtain ⟨s, hs, t, ht, rfl⟩ := run_concat_eq_ok_iff.1 h
    rw [List.append_assoc, List.singleton_append, ih hs, ih hs, List.append_assoc, lines, lines, ht]
    simp only [lines, List.append_nil]

theorem lines_concat {r s : Progress × List Notice} (h : p.run es = .ok r) (he : r.1.note e = .ok s) :
    p.lines (es ++ [e]) = p.lines es ++ e.lines s.2 := by
  rw [lines_append h, lines, he]
  simp only [lines, List.append_nil]

theorem isDue_iff : p.isDue force ↔
    (force = true ∨ p.lastLogged.toNat + 1000 ≤ p.stats.highest.toNat) ∧ p.lastEnd.isSome = true := by
  have hstride : stride.toNat = 1000 := rfl
  have hbehind : stride ≤ Word.saturatingSub p.stats.highest p.lastLogged ↔
      p.lastLogged.toNat + 1000 ≤ p.stats.highest.toNat := by
    rw [UInt64.le_iff_toNat_le, Word.toNat_saturatingSub, hstride]
    omega
  simp only [isDue, Bool.and_eq_true, Bool.or_eq_true, decide_eq_true_eq, hbehind]

theorem stride_le_of_isDue (hdue : p.isDue force) (hforce : force = false) :
    p.lastLogged.toNat + 1000 ≤ p.stats.highest.toNat := by
  rcases (isDue_iff.1 hdue).1 with hforced | hbehind
  · rw [hforce] at hforced
    cases hforced
  · exact hbehind

theorem log_near (hscanned : (p.log force).1.lastEnd.isSome) :
    (p.log force).1.stats.highest.toNat < (p.log force).1.lastLogged.toNat + 1000 := by
  unfold log at hscanned ⊢
  by_cases hdue : p.isDue force
  · rw [if_pos hdue]
    exact Nat.lt_add_of_pos_right (by decide)
  · rw [if_neg hdue] at hscanned ⊢
    exact Nat.lt_of_not_le fun hbehind => hdue (isDue_iff.2 ⟨.inr hbehind, hscanned⟩)

theorem exists_recordWindow {v? : Option ScanWindow} (hlast : p.lastEnd = v?.map (·.last))
    (hv : ∀ v ∈ v?, v.last.toNat < UInt64.size - 1) :
    ∃ r, p.recordWindow w = .ok r ∧ r.1.lastEnd = some w.last ∧ r.1.lastLogged = p.lastLogged ∧
      r.1.stats.highest = max p.stats.highest w.last ∧ r.2.filterMap toldBlock? = [] := by
  have hgap : p.gapBefore w = .ok (v?.bind (ScanWindow.hole · w)) := gapBefore_eq hlast hv
  unfold recordWindow
  rw [hgap]
  refine ⟨_, rfl, rfl, rfl, rfl, ?_⟩
  cases v?.bind (ScanWindow.hole · w) <;> rfl

/-- What the record holds of the lines that it has written, and what it has told. -/
structure Throttled (start : Word) (ws : List ScanWindow) (ls : List Line) (p : Progress) (ns : List Notice) :
    Prop where
  lastEnd : p.lastEnd = ws.getLast?.map (·.last)
  told : ns.filterMap toldBlock? = ls.map (·.highest)
  latest : p.lastLogged = (ls.getLast?.map (·.highest)).getD start
  logged_le : p.lastLogged ≤ p.stats.highest
  apart : ls.IsChain Line.Apart
  /-- Every line that was not asked for has been paid by a thousand blocks. -/
  paid : start.toNat + 1000 * ls.countP (fun l => !l.forced) ≤ p.lastLogged.toNat

theorem throttled_start (start : Word) : Throttled start [] [] (.start start) [] where
  lastEnd := rfl
  told := rfl
  latest := rfl
  logged_le := UInt64.le_refl start
  apart := .nil
  paid := Nat.le_refl _

theorem Throttled.window (h : Throttled start ws ls p ns) (hbounded : ∀ v ∈ ws, v.last.toNat < UInt64.size - 1) :
    ∃ r, p.recordWindow w = .ok r ∧ Throttled start (ws ++ [w]) ls r.1 (ns ++ r.2) ∧ Precedes p r.1 := by
  obtain ⟨r, hr, hlastEnd, hlogged, hhighest, htold⟩ :=
    exists_recordWindow (w := w) h.lastEnd fun v hv => hbounded v (List.mem_of_getLast? hv)
  have hgrows : p.stats.highest ≤ r.1.stats.highest := hhighest ▸ Word.left_le_max _ _
  refine ⟨r, hr, ?_, hgrows, hlogged ▸ UInt64.le_refl _⟩
  constructor
  case lastEnd =>
    rw [hlastEnd, List.getLast?_concat]
    rfl
  case told => rw [List.filterMap_append, htold, List.append_nil, h.told]
  case latest => rw [hlogged, h.latest]
  case logged_le => exact hlogged ▸ UInt64.le_trans h.logged_le hgrows
  case apart => exact h.apart
  case paid => exact hlogged ▸ h.paid

theorem Throttled.dispatch (h : Throttled start ws ls p ns) (outcome : DispatchOutcome) :
    Throttled start ws ls (p.recordDispatch outcome) ns ∧ Precedes p (p.recordDispatch outcome) := by
  cases outcome <;> exact ⟨{ h with }, UInt64.le_refl _, UInt64.le_refl _⟩

/-- A line that is written may be asked for at any time. One that is not spends a thousand of the blocks that were
scanned since the last one. -/
theorem Throttled.write (h : Throttled start ws ls p ns)
    (hstride : force = false → p.lastLogged.toNat + 1000 ≤ p.stats.highest.toNat) (dispatched foreign : Nat) :
    Throttled start ws (ls ++ [⟨p.stats.highest, force⟩]) { p with lastLogged := p.stats.highest }
      (ns ++ [.progress p.stats.highest dispatched foreign]) := by
  constructor
  case lastEnd => exact h.lastEnd
  case told =>
    rw [List.filterMap_append, h.told, List.map_append]
    rfl
  case latest =>
    rw [List.getLast?_concat]
    rfl
  case logged_le => exact UInt64.le_refl _
  case apart =>
    refine List.isChain_append.2 ⟨h.apart, .singleton _, fun a ha b hb hforce => ?_⟩
    obtain rfl := Option.some.inj hb
    have hlatest : p.lastLogged = a.highest := by
      rw [h.latest, Option.mem_def.1 ha]
      rfl
    exact hlatest ▸ hstride hforce
  case paid =>
    rw [List.countP_append]
    cases force with
    | true => exact Nat.le_trans h.paid (UInt64.le_iff_toNat_le.1 h.logged_le)
    | false =>
      calc
        start.toNat + 1000 * (ls.countP (fun l => !l.forced) + 1)
          = start.toNat + 1000 * ls.countP (fun l => !l.forced) + 1000 := by rw [Nat.mul_succ, Nat.add_assoc]
        _ ≤ p.lastLogged.toNat + 1000 := Nat.add_le_add_right h.paid 1000
        _ ≤ p.stats.highest.toNat := hstride rfl

theorem Throttled.line (h : Throttled start ws ls p ns) (force : Bool) :
    Throttled start ws (ls ++ Entry.lines (.line force) (p.log force).2) (p.log force).1 (ns ++ (p.log force).2) ∧
      Precedes p (p.log force).1 := by
  unfold log
  split
  · rename_i hdue
    exact ⟨h.write (stride_le_of_isDue hdue) _ _, UInt64.le_refl _, h.logged_le⟩
  · exact ⟨by simpa [Entry.lines] using h, .refl p⟩

theorem Throttled.step (h : Throttled start (windows es) ls p ns)
    (hbounded : ∀ w ∈ windows es, w.last.toNat < UInt64.size - 1) :
    ∃ r, p.note e = .ok r ∧ Throttled start (windows (es ++ [e])) (ls ++ e.lines r.2) r.1 (ns ++ r.2) ∧
      Precedes p r.1 := by
  rw [windows_concat]
  cases e with
  | window w =>
    obtain ⟨r, hr, hthrottled, hprecedes⟩ := h.window (w := w) hbounded
    exact ⟨r, hr, (List.append_nil ls).symm ▸ hthrottled, hprecedes⟩
  | dispatch outcome =>
    refine ⟨_, rfl, ?_⟩
    simpa [Entry.window?, Entry.lines] using h.dispatch outcome
  | line force =>
    refine ⟨_, rfl, ?_⟩
    simpa [Entry.window?] using h.line force

theorem exists_throttled (start : Word) (h : ∀ w ∈ windows es, w.last.toNat < UInt64.size - 1) :
    ∃ r, (Progress.start start).run es = .ok r ∧
      Throttled start (windows es) ((Progress.start start).lines es) r.1 r.2 ∧
      ∀ earlier, earlier <+: es → ∃ q, (Progress.start start).run earlier = .ok q ∧ Precedes q.1 r.1 := by
  induction es using List.reverseRecOn with
  | nil =>
    refine ⟨_, rfl, throttled_start start, fun earlier hearlier => ?_⟩
    rw [List.prefix_nil.1 hearlier]
    exact ⟨_, rfl, .refl _⟩
  | append_singleton es e ih =>
    have hes := bounded_of_concat h
    obtain ⟨r, hrun, hthrottled, hearlier⟩ := ih hes
    obtain ⟨s, hnote, hthrottled', hprecedes⟩ := hthrottled.step (e := e) hes
    have hrun' := run_concat hrun hnote
    refine ⟨_, hrun', lines_concat hrun hnote ▸ hthrottled', fun earlier hle => ?_⟩
    rcases List.prefix_concat_iff.1 hle with rfl | hle
    · exact ⟨_, hrun', .refl _⟩
    · obtain ⟨q, hq, hqr⟩ := hearlier earlier hle
      exact ⟨q, hq, hqr.trans hprecedes⟩

/-- A line that was not asked for tells of a thousand blocks more than the one before it, and where a line
may be written, what was told is less than a thousand blocks away. -/
theorem lines_throttled (start : Word) (h : ∀ w ∈ windows es, w.last.toNat < UInt64.size - 1) :
    ∃ p ns, (Progress.start start).run es = .ok (p, ns) ∧
      p.lastLogged ≤ p.stats.highest ∧
      (∀ earlier, earlier <+: es → ∃ q ms, (Progress.start start).run earlier = .ok (q, ms) ∧ Precedes q p) ∧
      ns.filterMap toldBlock? = ((Progress.start start).lines es).map (·.highest) ∧
      p.lastLogged = (((Progress.start start).lines es).getLast?.map (·.highest)).getD start ∧
      ((Progress.start start).lines es).IsChain Line.Apart ∧
      start.toNat + 1000 * ((Progress.start start).lines es).countP (fun l => !l.forced) ≤ p.stats.highest.toNat ∧
      (∀ force, es.getLast? = some (.line force) → windows es ≠ [] →
        p.stats.highest.toNat < p.lastLogged.toNat + 1000) ∧
      (es.length < UInt64.size → p.stats.Fits) := by
  obtain ⟨⟨p, ns⟩, hrun, hthrottled, hearlier⟩ := exists_throttled start h
  refine ⟨p, ns, hrun, hthrottled.logged_le, fun earlier hle => ?_, hthrottled.told, hthrottled.latest,
    hthrottled.apart, Nat.le_trans hthrottled.paid (UInt64.le_iff_toNat_le.1 hthrottled.logged_le),
    fun force hlast hscanned => ?_, fun hshort => ?_⟩
  · obtain ⟨⟨q, ms⟩, hq, hprecedes⟩ := hearlier earlier hle
    exact ⟨q, ms, hq, hprecedes⟩
  · obtain ⟨before, rfl⟩ := List.getLast?_eq_some_iff.1 hlast
    obtain ⟨r, -, s, hs, hr⟩ := run_concat_eq_ok_iff.1 hrun
    obtain rfl := Except.ok.inj hs
    obtain ⟨rfl, -⟩ := Prod.mk.inj hr
    refine log_near ?_
    rw [hthrottled.lastEnd, Option.isSome_map, List.getLast?_isSome]
    exact hscanned
  · obtain ⟨r, hr, hrecorded⟩ := exists_recorded start h
    obtain rfl := Except.ok.inj (hrun.symm.trans hr)
    exact hrecorded.fits (Nat.lt_of_le_of_lt (List.length_filterMap_le _ es) hshort)
      (Nat.lt_of_le_of_lt (List.length_filterMap_le _ es) hshort)

def pacedScan : List Entry :=
  [.line true, .window ⟨10, 20, .backfill⟩, .line true, .window ⟨21, 6000, .backfill⟩, .line false,
    .window ⟨6001, 6999, .live⟩, .line false, .line true, .window ⟨7100, 8100, .live⟩, .dispatch .foreign, .line false]

theorem lines_throttled_pacedScan :
    (∀ w ∈ windows pacedScan, w.last.toNat < UInt64.size - 1) ∧
      (Progress.start 5000).lines pacedScan = [⟨5000, true⟩, ⟨6000, false⟩, ⟨6999, true⟩, ⟨8100, false⟩] ∧
      ∃ p ns, (Progress.start 5000).run pacedScan = .ok (p, ns) ∧ ns.filterMap toldBlock? = [5000, 6000, 6999, 8100] ∧
        p.lastLogged = 8100 ∧ 5000 + 1000 * 2 ≤ p.stats.highest.toNat ∧ p.stats.highest.toNat < 8100 + 1000 := by
  have hbounded : ∀ w ∈ windows pacedScan, w.last.toNat < UInt64.size - 1 := by decide
  have hlines : (Progress.start 5000).lines pacedScan =
      [⟨5000, true⟩, ⟨6000, false⟩, ⟨6999, true⟩, ⟨8100, false⟩] := rfl
  obtain ⟨p, ns, hrun, -, -, htold, hlatest, -, hpaid, hnear, -⟩ := lines_throttled 5000 hbounded
  rw [hlines] at htold hlatest hpaid
  have hlast : p.lastLogged = 8100 := hlatest
  have hclose := hnear false rfl (by decide)
  rw [hlast] at hclose
  exact ⟨hbounded, hlines, p, ns, hrun, htold, hlast, hpaid, hclose⟩

end Lines

end CommitReveal.Progress
