import CommitReveal.Proofs.ScanRun

/-! A scan that catches up. While the head stays where it is and the chain answers, each step takes the largest
window that the lag allows, until at most one block is left; from then on nothing is scanned. -/
namespace CommitReveal

namespace ScanWindow

variable {head cursor next start : Word} {w : ScanWindow}

/-- How many windows reach over so many blocks: as many of the largest as fit, then of the next. One
block alone is left. -/
def needed (blocks : Nat) : Nat :=
  blocks / 1001 + blocks % 1001 / 101 + blocks % 1001 % 101 / 11 + blocks % 1001 % 101 % 11 / 2

theorem needed_le (blocks : Nat) : needed blocks ≤ blocks / 1001 + 23 := by
  unfold needed
  omega

theorem needed_eq_zero_iff {blocks : Nat} : needed blocks = 0 ↔ blocks ≤ 1 := by
  unfold needed
  omega

theorem select_eq_none_iff : select head cursor = .ok none ↔ head.toNat ≤ cursor.toNat := by
  rw [← UInt64.le_iff_toNat_le]
  unfold select
  split
  · rename_i hle
    exact ⟨fun _ => hle, fun _ => rfl⟩
  · rename_i hlt
    refine ⟨fun h => ?_, fun h => absurd h hlt⟩
    dsimp only at h
    split at h <;> cases h

theorem select_sizes (h : select head cursor = .ok (some w)) : ∃ size,
    w.last.toNat = cursor.toNat + size ∧ cursor.toNat + size ≤ head.toNat ∧
    (size = 1000 ∧ w.mode = .backfill ∨
      size = 100 ∧ head.toNat < cursor.toNat + 1000 ∧ w.mode = .backfill ∨
      size = 10 ∧ head.toNat < cursor.toNat + 100 ∧ w.mode = .live ∨
      size = 1 ∧ head.toNat < cursor.toNat + 10 ∧ w.mode = .live) := by
  unfold select at h
  split at h
  · cases h
  · rename_i hlt
    rw [UInt64.le_iff_toNat_le] at hlt
    have hlag : (head - cursor).toNat = head.toNat - cursor.toNat :=
      UInt64.toNat_sub_of_le head cursor (by rw [UInt64.le_iff_toNat_le]; omega)
    cases hadd : Word.add? cursor (reach (head - cursor)).1 with
    | none =>
      dsimp only at h
      rw [hadd] at h
      cases h
    | some last =>
      dsimp only at h
      rw [hadd] at h
      cases h
      have hlast := Word.add?_eq_some_iff.1 hadd
      refine ⟨_, hlast.symm, ?_⟩
      unfold reach
      simp only [UInt64.le_iff_toNat_le, hlag]
      have h1000 : (1000 : UInt64).toNat = 1000 := rfl
      have h100 : (100 : UInt64).toNat = 100 := rfl
      have h10 : (10 : UInt64).toNat = 10 := rfl
      have h1 : (1 : UInt64).toNat = 1 := rfl
      rw [h1000, h100, h10]
      split
      · exact ⟨by dsimp only; omega, .inl ⟨rfl, rfl⟩⟩
      · split
        · exact ⟨by dsimp only; omega, .inr (.inl ⟨rfl, by omega, rfl⟩)⟩
        · split
          · exact ⟨by dsimp only; omega, .inr (.inr (.inl ⟨rfl, by omega, rfl⟩))⟩
          · exact ⟨by dsimp only; omega, .inr (.inr (.inr ⟨rfl, by omega, rfl⟩))⟩

theorem needed_step (h : select head cursor = .ok (some w)) (hnext : w.last.toNat + 1 = next.toNat) :
    needed (head.toNat + 1 - cursor.toNat) = needed (head.toNat + 1 - next.toNat) + 1 := by
  obtain ⟨size, hlast, hle, hsize⟩ := select_sizes h
  rw [← hnext, hlast]
  unfold needed
  rcases hsize with ⟨rfl, -⟩ | ⟨rfl, hlag, -⟩ | ⟨rfl, hlag, -⟩ | ⟨rfl, hlag, -⟩ <;> omega

theorem live_iff (h : select head cursor = .ok (some w)) :
    w.mode = .live ↔ head.toNat < cursor.toNat + 100 := by
  obtain ⟨size, hlast, hle, hsize⟩ := select_sizes h
  rcases hsize with ⟨rfl, hmode⟩ | ⟨rfl, -, hmode⟩ | ⟨rfl, hlag, hmode⟩ | ⟨rfl, hlag, hmode⟩ <;> rw [hmode]
  · exact ⟨(fun hlive => nomatch hlive), fun hlag => absurd hlag (by omega)⟩
  · exact ⟨(fun hlive => nomatch hlive), fun hlag => absurd hlag (by omega)⟩
  · exact ⟨fun _ => hlag, fun _ => rfl⟩
  · exact ⟨fun _ => by omega, fun _ => rfl⟩

end ScanWindow

namespace Agent

open Program
open ScanWindow (needed)

variable {s : Settings} {e : EventSync} {start head confirmations : Word} {handlers : List Handler}
  {t u : Transcript interface} {ts : List (Transcript interface)} {q : Activity (StepOutcome × EventSync)}
  {result : StepOutcome × EventSync}

/-- The chain answers: the head, less the confirmations, is the given one, and logs come. -/
def Responds (head confirmations : Word) : Exchange interface → Prop
  | ⟨.chain .blockNumber, .ok top⟩ => Word.saturatingSub top confirmations = head
  | ⟨.chain .blockNumber, .error _⟩ => False
  | ⟨.logs .., none⟩ => False
  | _ => True

theorem idle_of_reaches {outcome : StepOutcome} (h : (idle s).Reaches t (.done outcome)) :
    fetched t = [] ∧ (outcome = .idle ∨ outcome = .cancelled) := by
  unfold idle at h
  obtain _ | ⟨_ | @⟨_, _, wake, _, _, rest⟩⟩ := h
  cases wake with
  | due =>
    cases rest
    exact ⟨rfl, .inl rfl⟩
  | cancelled =>
    cases rest
    exact ⟨rfl, .inr rfl⟩

/-- A step that is answered takes the window that the head allows, and is idle if there is none. -/
theorem of_responds (hresponds : ∀ x ∈ t, Responds head e.confirmations x)
    (h : (scanStep s e).Reaches t (.done result)) :
    (ScanWindow.select head e.cursor = .ok none ∧ fetched t = [] ∧ result.2 = e ∧
      (result.1 = .idle ∨ result.1 = .cancelled)) ∨
    ∃ w logs, ScanWindow.select head e.cursor = .ok (some w) ∧ fetched t = [(w, logs)] ∧
      Word.add? w.last 1 = some result.2.cursor ∧ result.1 = .scanned w logs.length := by
  have hfinished : Finished s e result t := (scanStep_meets s e).reached h
  unfold scanStep callChain at h
  obtain _ | @⟨_, _, answer, t, _, rest⟩ := h
  obtain ⟨hhead, hlater⟩ := List.forall_mem_cons.1 hresponds
  cases answer with
  | error cause => exact hhead.elim
  | ok top =>
    obtain rfl : Word.saturatingSub top e.confirmations = head := hhead
    obtain ⟨window, hselect, -⟩ := ScanWindow.select_spec (Word.saturatingSub top e.confirmations) e.cursor
    simp only [bind_eq, done_bind, hselect, orAbort, pure_eq_done] at rest
    cases window with
    | none =>
      obtain ⟨t₁, t₂, outcome, rfl, hidle, hdone⟩ := Reaches.of_bind rest
      cases hdone
      rw [List.append_nil]
      exact .inl ⟨hselect, (idle_of_reaches hidle).1, rfl, (idle_of_reaches hidle).2⟩
    | some w =>
      obtain _ | @⟨_, _, logs, t, _, rest⟩ := rest
      obtain ⟨hlogs, -⟩ := List.forall_mem_cons.1 hlater
      cases logs with
      | none => exact hlogs.elim
      | some logs =>
        simp only [done_bind] at rest
        obtain ⟨t₁, t₂, e', rfl, -, hdone⟩ := Reaches.of_bind rest
        cases hdone
        obtain ⟨-, hnone⟩ | ⟨w', logs', p, cursor, recorded, hscanned, hadd, -, rfl⟩ := hfinished
        · cases hnone
        · have hfetched := hscanned.fetched_eq
          obtain ⟨rfl, rfl⟩ := Prod.mk.inj (List.cons.inj hfetched).1
          exact .inr ⟨w, logs, hselect, hfetched, hadd, rfl⟩

/-- How far a scan has come that is always answered: so many windows are behind it that only those are
left that are needed yet, and no step was idle before. -/
structure Nearing (start head : Word) (ts : List (Transcript interface)) (e : EventSync) : Prop where
  left : (scans ts).length + needed (head.toNat + 1 - e.cursor.toNat) = needed (head.toNat + 1 - start.toNat)
  busy : (scans ts).length = ts.length ∨
    (scans ts).length ≤ ts.length ∧ needed (head.toNat + 1 - e.cursor.toNat) = 0
  cursor : start.toNat ≤ e.cursor.toNat ∧ e.cursor.toNat ≤ max start.toNat (head.toNat + 1)
  live : ∀ x ∈ scans ts, x.1.mode = .live → head.toNat < e.cursor.toNat + 100
  modes : (scans ts).Pairwise fun x y => x.1.mode = .live → y.1.mode = .live

theorem Nearing.step (h : Nearing start head ts e)
    (hresponds : ∀ x ∈ t, Responds head e.confirmations x) (hreach : (scanStep s e).Reaches t (.done result)) :
    Nearing start head (ts ++ [t]) result.2 := by
  have hscans := scans_snoc ts t
  obtain ⟨hnone, hfetched, heq, -⟩ | ⟨w, logs, hselect, hfetched, hadd, -⟩ := of_responds hresponds hreach
  · rw [hfetched, List.append_nil] at hscans
    rw [heq]
    have hdone : needed (head.toNat + 1 - e.cursor.toNat) = 0 :=
      ScanWindow.needed_eq_zero_iff.2 (by have := ScanWindow.select_eq_none_iff.1 hnone; omega)
    refine ⟨hscans ▸ h.left, .inr ⟨?_, hdone⟩, h.cursor, hscans ▸ h.live, hscans ▸ h.modes⟩
    have hbusy := h.busy
    rw [hscans, List.length_append]
    omega
  · rw [hfetched] at hscans
    have hbehind : w.last.toNat + 1 = result.2.cursor.toNat := Word.add?_eq_some_iff.1 hadd
    have hstep := ScanWindow.needed_step hselect hbehind
    obtain ⟨-, hlt, hle⟩ := ScanWindow.of_select hselect
    obtain ⟨hleft, hbusy, hcursor, hlive, hmodes⟩ := h
    constructor
    · rw [hscans, List.length_append, List.length_singleton]
      omega
    · rw [hscans, List.length_append, List.length_singleton, List.length_append, List.length_singleton]
      omega
    · omega
    · intro x hx hmode
      rw [hscans] at hx
      rcases List.mem_append.1 hx with hx | hx
      · have hlag := hlive x hx hmode
        omega
      · rw [List.mem_singleton.1 hx] at hmode
        have hlag := (ScanWindow.live_iff hselect).1 hmode
        omega
    · rw [hscans]
      refine List.pairwise_append.2 ⟨hmodes, List.pairwise_singleton .., fun x hx y hy hmode => ?_⟩
      rw [List.mem_singleton.1 hy]
      exact (ScanWindow.live_iff hselect).2 (hlive x hx hmode)

theorem nearing_of_steps (hsteps : Steps s (.start start handlers confirmations) ts e)
    (hresponds : ∀ t ∈ ts, ∀ x ∈ t, Responds head confirmations x) : Nearing start head ts e := by
  induction hsteps with
  | nil =>
    refine ⟨Nat.zero_add _, .inl rfl, ?_, (fun x hx => nomatch hx), .nil⟩
    show start.toNat ≤ start.toNat ∧ start.toNat ≤ _
    omega
  | snoc steps last ih =>
    have hkept := (covers_of_steps steps).kept
    refine (ih fun t ht => hresponds t (List.mem_append_left _ ht)).step (hkept ▸ ?_) last
    exact hresponds _ (List.mem_append_right _ (List.mem_singleton_self _))

theorem exists_response (htold : ∃ top, Word.saturatingSub top confirmations = head) {r : Request}
    (hr : ∀ f, r ≠ .abort f) : ∃ a : r.Answer, Responds head confirmations ⟨r, a⟩ := by
  cases r with
  | chain c =>
    cases c with
    | blockNumber =>
      obtain ⟨top, htop⟩ := htold
      exact ⟨.ok top, htop⟩
    | _ => exact ⟨.error (.rpc ""), trivial⟩
  | logs window initial limit => exact ⟨some [], trivial⟩
  | abort f => exact absurd rfl (hr f)
  | store r =>
    cases r with
    | clock => exact ⟨(0 : Int64), trivial⟩
    | call c => exact ⟨.error (.io ""), trivial⟩
  | memory r => exact ⟨(Memory.perform r (.empty 0)).1, trivial⟩
  | entropy => exact ⟨.fill 32 0, trivial⟩
  | deliver handler event mode => exact ⟨.ok (), trivial⟩
  | isCancelled => exact ⟨false, trivial⟩
  | pauseUntil time => exact ⟨.due, trivial⟩
  | clock | spawn _ => exact ⟨(0 : Nat), trivial⟩
  | nextReveal | receipt _ _ _ => exact ⟨none, trivial⟩
  | notify _ | cancel | sleep _ | join _ => exact ⟨(), trivial⟩

theorem headsRead_of_responds (hresponds : ∀ x ∈ t, Responds head confirmations x) :
    ∀ top ∈ headsRead t, Word.saturatingSub top confirmations = head := by
  intro top htop
  obtain ⟨⟨r, a⟩, hx, hread⟩ := List.mem_filterMap.1 htop
  have hgood := hresponds _ hx
  unfold headRead? at hread
  split at hread
  · cases hread
    rename_i heq
    obtain ⟨rfl, rfl⟩ := heq
    exact hgood
  · cases hread

/-- Wherever a step is, it can be answered to its end. -/
theorem Covers.exists_end (h : Covers s start handlers confirmations ts e)
    (hhead : head.toNat < UInt64.size - 1) (htold : ∃ top, Word.saturatingSub top confirmations = head)
    (hreach : (scanStep s e).Reaches t q) (hresponds : ∀ x ∈ t, Responds head confirmations x) :
    ∃ u result, q.Reaches u (.done result) ∧ ∀ x ∈ u, Responds head confirmations x := by
  refine Program.exists_end fun u r next hu hgood => exists_response htold fun f hf => ?_
  subst hf
  have hall : ∀ x ∈ t ++ u, Responds head confirmations x :=
    fun x hx => (List.mem_append.1 hx).elim (hresponds x) (hgood x)
  have hmeets := (scanStep_meets s e).reached (hreach.trans hu)
  refine h.not_stuck (fun top htop => ?_) (upholds_watched.1 hmeets).1
  rw [headsRead_of_responds hall top htop]
  exact hhead

theorem Nearing.length_scans (h : Nearing start head ts e) :
    (scans ts).length = min ts.length (needed (head.toNat + 1 - start.toNat)) := by
  obtain ⟨hleft, hbusy, -⟩ := h
  omega

theorem Nearing.fetches_iff (h : Nearing start head ts e) :
    ts.length < needed (head.toNat + 1 - start.toNat) ↔ e.cursor.toNat < head.toNat := by
  obtain ⟨hleft, hbusy, -⟩ := h
  have hzero := @ScanWindow.needed_eq_zero_iff (head.toNat + 1 - e.cursor.toNat)
  omega

theorem Covers.wide {x : ScanWindow × List EventLog} (h : Covers s start handlers confirmations ts e)
    (hx : x ∈ scans ts) : x.1.first.toNat < x.1.last.toNat := by
  obtain ⟨t, ht, hx⟩ := List.mem_flatMap.1 hx
  obtain ⟨⟨_, -, hlt, -⟩, -⟩ := h.scanned t ht x hx
  exact UInt64.lt_iff_toNat_lt.1 hlt

theorem Nearing.caught_up (h : Nearing start head ts e) (hcovers : Covers s start handlers confirmations ts e)
    (hdone : needed (head.toNat + 1 - start.toNat) ≤ ts.length) :
    (head ≤ start → e.cursor = start) ∧
    (start < head → e.cursor = head ∨ Word.add? head 1 = some e.cursor) ∧
    ∀ b, start ≤ b → b < head → (scans ts).countP (·.1.covers b) = 1 := by
  have hbehind : head.toNat ≤ e.cursor.toNat := Nat.le_of_not_lt fun hlt => by
    have := h.fetches_iff.2 hlt
    omega
  have hcursor := h.cursor
  simp only [UInt64.le_iff_toNat_le, UInt64.lt_iff_toNat_lt]
  refine ⟨fun hle => ?_, fun hlt => ?_, fun b hstart hb => ?_⟩
  · have hnone : needed (head.toNat + 1 - start.toNat) = 0 := ScanWindow.needed_eq_zero_iff.2 (by omega)
    have hlength := h.length_scans
    rw [hnone, Nat.min_zero] at hlength
    have hchained := hcovers.tracked.chained
    rw [List.length_eq_zero_iff.1 hlength] at hchained
    cases hchained
    rfl
  · rw [Word.add?_eq_some_iff, ← UInt64.toNat_inj]
    show _ ∨ head.toNat + 1 = _
    omega
  · have hcount := (hcovers.tracked.chained.countP_covers fun w hw => ?_).2 b
    · rw [List.countP_map] at hcount
      refine hcount.trans (if_pos ?_)
      rw [UInt64.le_iff_toNat_le, UInt64.lt_iff_toNat_lt]
      omega
    · obtain ⟨x, hx, rfl⟩ := List.mem_map.1 hw
      exact Nat.le_of_lt (hcovers.wide hx)

/-- While the confirmed head stays where it is and the chain answers, so many steps fetch a window as are
needed, and the ones after them nothing. -/
theorem catches_up (hsteps : Steps s (.start start handlers confirmations) ts e)
    (hresponds : ∀ t ∈ ts, ∀ x ∈ t, Responds head confirmations x) (hhead : head.toNat < UInt64.size - 1)
    (htold : ∃ top, Word.saturatingSub top confirmations = head) :
    needed (head.toNat + 1 - start.toNat) ≤ (head.toNat + 1 - start.toNat) / 1001 + 23 ∧
    (head ≤ start → needed (head.toNat + 1 - start.toNat) = 0) ∧
    (∀ t q, (scanStep s e).Reaches t q → (∀ x ∈ t, Responds head confirmations x) →
      (∃ u result, q.Reaches u (.done result) ∧ ∀ x ∈ u, Responds head confirmations x) ∧
      (∀ w initial limit next, q = .ask (.logs w initial limit) next → w.last ≤ head) ∧
      (∀ result, q = .done result → if ts.length < needed (head.toNat + 1 - start.toNat)
        then ∃ w logs, fetched t = [(w, logs)] ∧ result.1 = .scanned w logs.length
        else fetched t = [] ∧ result.2 = e ∧ (result.1 = .idle ∨ result.1 = .cancelled))) ∧
    (scans ts).length = min ts.length (needed (head.toNat + 1 - start.toNat)) ∧
    (needed (head.toNat + 1 - start.toNat) ≤ ts.length →
      (head ≤ start → e.cursor = start) ∧
      (start < head → e.cursor = head ∨ Word.add? head 1 = some e.cursor) ∧
      ∀ b, start ≤ b → b < head → (scans ts).countP (·.1.covers b) = 1) ∧
    (scans ts).Pairwise fun x y => x.1.mode = .live → y.1.mode = .live := by
  have hcovers := covers_of_steps hsteps
  have hnear := nearing_of_steps hsteps hresponds
  refine ⟨ScanWindow.needed_le _, fun hle => ?_, fun t q hreach hgood => ⟨?_, ?_, ?_⟩, hnear.length_scans,
    hnear.caught_up hcovers, hnear.modes⟩
  · rw [UInt64.le_iff_toNat_le] at hle
    exact ScanWindow.needed_eq_zero_iff.2 (by omega)
  · exact hcovers.exists_end hhead htold hreach hgood
  · rintro w initial limit next rfl
    obtain ⟨⟨top, rfl, hselect⟩, -⟩ := upholds_watched.1 ((scanStep_meets s e).reached hreach)
    obtain ⟨-, -, hle⟩ := ScanWindow.of_select hselect
    rw [hcovers.kept, headsRead_of_responds hgood top (List.mem_singleton_self top)] at hle
    exact UInt64.le_iff_toNat_le.2 hle
  · rintro result rfl
    obtain ⟨hselect, hstep⟩ | ⟨w, logs, hselect, hfetched, -, houtcome⟩ :=
      of_responds (hcovers.kept ▸ hgood) hreach
    · have hle := ScanWindow.select_eq_none_iff.1 hselect
      rw [if_neg (by rw [hnear.fetches_iff]; omega)]
      exact hstep
    · obtain ⟨-, hlt, hle⟩ := ScanWindow.of_select hselect
      rw [if_pos (by rw [hnear.fetches_iff]; omega)]
      exact ⟨w, logs, hfetched, houtcome⟩

theorem catches_up_firstStep : ∃ (ts : List (Transcript interface)) (e : EventSync),
    Steps usual (.start 10 [.revealTrigger] 5) ts e ∧ (∀ t ∈ ts, ∀ x ∈ t, Responds 20 5 x) ∧
      (20 : Word).toNat < UInt64.size - 1 ∧ (∃ top, Word.saturatingSub top 5 = 20) ∧
      (scans ts).length = 1 ∧ (e.cursor = 20 ∨ Word.add? 20 1 = some e.cursor) ∧
      (∀ b : Word, 10 ≤ b → b < 20 → (scans ts).countP (·.1.covers b) = 1) ∧
      ∃ t result, (scanStep usual e).Reaches t (.done result) ∧ (∀ x ∈ t, Responds 20 5 x) ∧
        fetched t = [] ∧ result.2 = e := by
  have hsteps : Steps usual (.start 10 [.revealTrigger] 5) [firstStep (.ok ())] behindFirst :=
    Steps.nil.snoc (reaches_firstStep _)
  have hresponds : ∀ t ∈ [firstStep (.ok ())], ∀ x ∈ t, Responds 20 5 x := by
    intro t ht
    rw [List.mem_singleton.1 ht]
    have hhead : Word.saturatingSub 25 5 = 20 := by decide
    refine List.forall_mem_cons.2 ⟨hhead, List.forall_mem_cons.2 ⟨trivial, ?_⟩⟩
    refine List.forall_mem_cons.2 ⟨trivial, List.forall_mem_cons.2 ⟨trivial, ?_⟩⟩
    exact List.forall_mem_singleton.2 trivial
  have htold : ∃ top, Word.saturatingSub top 5 = 20 := ⟨25, by decide⟩
  obtain ⟨-, -, hnext, hlength, hcaught, -⟩ := catches_up hsteps hresponds (by decide) htold
  obtain ⟨-, hcursor, hcount⟩ := hcaught (by decide)
  obtain ⟨⟨t, result, hreach, hgood⟩, -⟩ := hnext [] _ (.here _) fun x hx => nomatch hx
  obtain ⟨-, -, hdone⟩ := hnext t _ hreach hgood
  obtain ⟨hfetched, hsame, -⟩ := (if_neg (by decide)).mp (hdone result rfl)
  exact ⟨_, _, hsteps, hresponds, by decide, htold, hlength, hcursor (by decide), hcount, t, result, hreach,
    hgood, hfetched, hsame⟩

end Agent

end CommitReveal
