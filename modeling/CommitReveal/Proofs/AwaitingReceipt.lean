import CommitReveal.Proofs.Polls

/-! Waiting for a receipt. The chain is polled once a period until a poll brings an outcome; the deadline or
cancellation ends the waiting, whichever comes first. A poll that is due at that very time may go before it or not. -/
namespace CommitReveal.Simulation

open Agent (Routine awaitReceipt)

variable {home k n period timeout deadline due since fuel : Nat} {tx : TxHash} {w v : World}
  {outcome : TxOutcome}

theorem awaitReceipt_eq (hperiod : 0 < period) :
    awaitReceipt tx period timeout = .ask (.receipt tx period timeout) .done :=
  if_neg (Nat.ne_of_gt hperiod)

theorem poll_receipt (hperiod : 0 < period) : w.poll home (.receipt tx period timeout) none =
    w.pollReceipt home tx ⟨w.now + timeout, ⟨period, w.now + period⟩⟩ true := by
  have hstart : ReceiptWait.start w.now period timeout = .ok ⟨w.now + timeout, ⟨period, w.now + period⟩⟩ := by
    unfold ReceiptWait.start Ticker.start
    rw [if_neg (Nat.ne_of_gt hperiod)]
    rfl
  dsimp only [World.poll]
  rw [hstart]

theorem run_awaitReceipt (hgo : ¬w.isCancelled home) (hperiod : 0 < period) (htimeout : 0 < timeout) :
    run home (awaitReceipt tx period timeout) w =
      (.suspended (polling tx period timeout (w.now + timeout) (w.now + period) w.stamp),
        { w with stamp := w.stamp + 1 }) := by
  let wait : ReceiptWait := ⟨w.now + timeout, ⟨period, w.now + period⟩⟩
  have hgoing : (w.isCancelled home || wait.isOver w.now) = false := by
    rw [eq_false_of_ne_true hgo]
    exact decide_eq_false (Nat.not_le.2 (Nat.lt_add_of_pos_right htimeout))
  have hearly : wait.isDue w.now = false := decide_eq_false (Nat.not_le.2 (Nat.lt_add_of_pos_right hperiod))
  rw [awaitReceipt_eq hperiod]
  unfold run
  rw [poll_receipt hperiod]
  unfold World.pollReceipt
  rw [hgoing, hearly]
  rfl

theorem run_awaitReceipt_zero (hperiod : 0 < period) :
    run home (awaitReceipt tx period 0) w = (.done none, w) := by
  let wait : ReceiptWait := ⟨w.now + 0, ⟨period, w.now + period⟩⟩
  have hover : (w.isCancelled home || wait.isOver w.now) = true := by
    rw [Bool.or_eq_true]
    exact .inr (decide_eq_true (Nat.le_refl w.now))
  have hearly : wait.isDue w.now = false := decide_eq_false (Nat.not_le.2 (Nat.lt_add_of_pos_right hperiod))
  rw [awaitReceipt_eq hperiod]
  unfold run
  rw [poll_receipt hperiod]
  unfold World.pollReceipt
  rw [hover, hearly]
  rfl

theorem exists_polls {time : Nat} (hperiod : 0 < period) (htime : 0 < time) :
    ∃ n, n * period < time ∧ time ≤ n * period + period := by
  have hle : (time - 1) / period * period ≤ time - 1 := Nat.div_mul_le_self _ _
  have hlt : time - 1 < period * ((time - 1) / period + 1) := Nat.lt_mul_div_succ _ hperiod
  rw [Nat.mul_add_one, Nat.mul_comm] at hlt
  exact ⟨(time - 1) / period, by omega, by omega⟩

theorem count_polls {time : Nat} (hperiod : 0 < period) (goes : Bool) (hlt : n * period < time)
    (hle : time ≤ n * period + period) :
    n + (decide (n * period + period ≤ time) && goes).toNat ≤ time / period ∧
      ∀ k, k * period = time → n + (decide (n * period + period ≤ time) && goes).toNat = if goes then k else k - 1 := by
  rw [Nat.le_div_iff_mul_le hperiod]
  by_cases hcome : n * period + period ≤ time
  · have heq : (n + 1) * period = time := by rw [Nat.succ_mul]; omega
    rw [decide_eq_true hcome, Bool.true_and]
    refine ⟨?_, fun k hk => ?_⟩
    · cases goes
      · exact Nat.le_of_lt hlt
      · exact Nat.le_of_eq heq
    · obtain rfl : k = n + 1 := Nat.eq_of_mul_eq_mul_right hperiod (hk.trans heq.symm)
      cases goes <;> rfl
  · rw [decide_eq_false hcome, Bool.false_and]
    refine ⟨Nat.le_of_lt hlt, fun k hk => ?_⟩
    have hlow : n < k := Nat.lt_of_mul_lt_mul_right (hk ▸ hlt)
    have hhigh : (n + 1) * period ≤ k * period := Nat.mul_le_mul_right period hlow
    rw [Nat.succ_mul] at hhigh
    omega

theorem timers_alone (htasks : w.tasks = #[]) : w.timers = [] := by
  unfold World.timers World.suspensions
  rw [htasks]
  exact List.mergeSort_nil

section Alone

variable (hw : w.Waits home) (htasks : w.tasks = #[]) (hperiod : 0 < period)
include hw htasks hperiod

theorem awaitReceipt_first (hk : k * period < timeout) (hfuel : k ≤ fuel)
    (hbefore : ∀ j < k, w.chain.outcome? tx j = none) (hmined : w.chain.outcome? tx k = some outcome) : ∃ v,
    finish home fuel (run home (awaitReceipt tx period timeout) w) = (.done (some outcome), v) ∧
      v.now = w.now + k * period ∧ v.chain = w.chain.polled tx k := by
  let u : World := { w with stamp := w.stamp + 1 }
  have hu : u.Waits home := hw.later
  have htimers : u.timers = [] := timers_alone htasks
  obtain ⟨rest, rfl⟩ := Nat.le.dest hfuel
  rw [run_awaitReceipt hw.going hperiod (by omega), Nat.add_comm]
  refine finish_first hu hperiod (Nat.add_lt_add_left hk _) ?_ hbefore hmined
  rw [htimers]
  exact List.forall_mem_nil _

theorem awaitReceipt_late (hfuel : timeout / period + 1 ≤ fuel)
    (hnone : ∀ k, k * period < timeout → w.chain.outcome? tx k = none) : ∃ v n,
    finish home fuel (run home (awaitReceipt tx period timeout) w) = (.done (w.chain.outcome? tx n), v) ∧
      v.now = w.now + timeout ∧ v.chain = w.chain.polled tx n ∧ n ≤ timeout / period ∧
      ∀ k, k * period = timeout → n = if w.flip.1 then k else k - 1 := by
  rcases Nat.eq_zero_or_pos timeout with rfl | htimeout
  · rw [run_awaitReceipt_zero hperiod, finish_done]
    refine ⟨w, 0, rfl, rfl, rfl, Nat.zero_le _, fun k hk => ?_⟩
    obtain rfl : k = 0 := (Nat.mul_eq_zero.1 hk).resolve_right (Nat.ne_of_gt hperiod)
    exact (ite_self 0).symm
  · obtain ⟨n, hlt, hle⟩ := exists_polls hperiod htimeout
    let u : World := { w with stamp := w.stamp + 1 }
    have hu : u.Waits home := hw.later
    have htimers : u.timers = [] := timers_alone htasks
    have hbefore : ∀ k ≤ n, u.chain.outcome? tx k = none := fun k hk =>
      hnone k (Nat.lt_of_le_of_lt (Nat.mul_le_mul_right period hk) hlt)
    have hn : n ≤ timeout / period := (Nat.le_div_iff_mul_le hperiod).2 (Nat.le_of_lt hlt)
    obtain ⟨rest, rfl⟩ := Nat.le.dest (Nat.le_trans (Nat.add_le_add_right hn 1) hfuel)
    obtain ⟨since', hpolls⟩ := finish_polls hu (Nat.add_lt_add_left hlt _) (htimers ▸ List.forall_mem_nil _) hbefore
    have hlate : w.now + timeout ≤ u.now + n * period + period := by
      rw [Nat.add_assoc]
      exact Nat.add_le_add_left hle _
    obtain ⟨v, hfinish, hnow, hchain⟩ := finish_late hu.polled hlate (htimers ▸ List.forall_mem_nil _)
      (Nat.add_le_add_left (Nat.le_of_lt hlt) _)
    have hcome : decide (u.now + n * period + period ≤ w.now + timeout) = decide (n * period + period ≤ timeout) := by
      rw [Nat.add_assoc]
      exact decide_eq_decide.2 (Nat.add_le_add_iff_left)
    rw [hcome] at hfinish hchain
    obtain ⟨hcount, hexact⟩ := count_polls hperiod w.flip.1 hlt hle
    refine ⟨v, _, ?_, hnow, ?_, hcount, hexact⟩
    · have hfuel' : n + 1 + rest = rest + 1 + n := by omega
      rw [run_awaitReceipt hw.going hperiod htimeout, hfuel', hpolls, ChainSource.outcome?_add hbefore]
      exact hfinish
    · rw [ChainSource.polled_add]
      exact hchain

/-- No outcome is made up. -/
theorem awaitReceipt_given (hfuel : timeout / period + 1 ≤ fuel)
    (hfinish : finish home fuel (run home (awaitReceipt tx period timeout) w) = (.done (some outcome), v)) :
    ∃ k, k * period ≤ timeout ∧ w.chain.outcome? tx k = some outcome := by
  obtain hnone | ⟨k, hk, first, hbefore, hmined⟩ := w.chain.exists_first tx (timeout / period)
  · obtain ⟨v', n, hend, -, -, hn, -⟩ := awaitReceipt_late hw htasks hperiod hfuel fun k hk =>
      hnone k ((Nat.le_div_iff_mul_le hperiod).2 (Nat.le_of_lt hk))
    rw [hnone n hn] at hend
    cases hfinish.symm.trans hend
  · have hle : k * period ≤ timeout := (Nat.le_div_iff_mul_le hperiod).1 hk
    by_cases hearly : k * period < timeout
    · have hfuel' : k ≤ fuel := Nat.le_trans hk (Nat.le_of_succ_le hfuel)
      obtain ⟨v', hend, -⟩ := awaitReceipt_first hw htasks hperiod hearly hfuel' hbefore hmined
      cases hfinish.symm.trans hend
      exact ⟨k, hle, hmined⟩
    · obtain ⟨v', n, hend, -, -, hn, -⟩ := awaitReceipt_late hw htasks hperiod hfuel fun j hj =>
        hbefore j (Nat.lt_of_mul_lt_mul_right (Nat.lt_of_lt_of_le hj (Nat.not_lt.1 hearly)))
      have hgiven := (Stop.done.inj (congrArg Prod.fst (hfinish.symm.trans hend))).symm
      exact ⟨n, (Nat.le_div_iff_mul_le hperiod).1 hn, hgiven⟩

end Alone

section Stopping

def stopping (ms due since : Nat) : Suspended (Option Routine) :=
  ⟨.sleep ms, .timer due, since, fun _ => do Agent.ask .cancel; return none⟩

def World.stopped (w : World) (home : Nat) : World :=
  (w.cancel home).endTask 0 home

theorem World.now_stopped (w : World) (home : Nat) : (w.stopped home).now = w.now := by
  simp only [stopped, endTask, setTask, cancel, wake, updateHome]

theorem World.chain_stopped (w : World) (home : Nat) : (w.stopped home).chain = w.chain := by
  simp only [stopped, endTask, setTask, cancel, wake, updateHome]

theorem World.flips_stopped (w : World) (home : Nat) : (w.stopped home).flips = w.flips := by
  simp only [stopped, endTask, setTask, cancel, wake, updateHome]

variable {s : Agent.Settings} {ms : Nat}

theorem runTask_stopping (hs : w.settings? home = some s)
    (htasks : w.tasks[0]? = some ⟨home, .suspended (stopping ms due since)⟩) (hdue : due ≤ w.now) :
    w.runTask 0 = w.stopped home := by
  have hpoll : w.pollTimer due = .answer () := if_pos hdue
  have hresume : resume home (stopping ms due since) w = (.done none, w.cancel home) := by
    unfold resume
    dsimp only [stopping, World.poll]
    rw [hpoll]
    rfl
  unfold World.runTask
  rw [htasks]
  dsimp only
  rw [hs]
  dsimp only
  rw [hresume]
  unfold turns
  rfl

theorem runTask_stopAfter {s' : Agent.Settings} (hs : w.settings? home = some s)
    (htasks : w.tasks[0]? = some ⟨home, .runnable ((Routine.stopAfter ms).turn s')⟩) :
    w.runTask 0 = if ms = 0 then w.stopped home
      else { w with stamp := w.stamp + 1 }.setTask 0 home (.suspended (stopping ms (w.now + ms) w.stamp)) := by
  have hrun : run home ((Routine.stopAfter ms).turn s') w = if ms = 0 then (.done none, w.cancel home)
      else (.suspended (stopping ms (w.now + ms) w.stamp), { w with stamp := w.stamp + 1 }) := by
    show run home (.ask (.sleep ms) _) w = _
    unfold run
    dsimp only [World.poll]
    by_cases hms : ms = 0
    · have hpoll : w.pollTimer (w.now + ms) = .answer () := if_pos (by omega)
      rw [if_pos hms, hpoll]
      rfl
    · have hpoll : w.pollTimer (w.now + ms) = .wait (.timer (w.now + ms)) true := if_neg (by omega)
      rw [if_neg hms, hpoll]
      rfl
  unfold World.runTask
  rw [htasks]
  dsimp only
  rw [hs]
  dsimp only
  rw [hrun]
  split
  · unfold turns
    rfl
  · unfold turns
    rfl

theorem finish_stopped (hs : w.settings? home = some s) (hready : w.ready = [0])
    (hrun : World.runTask { w with ready := [] } 0 = World.stopped { w with ready := [] } home)
    (hnone : w.cancellable home = []) : ∃ v,
    finish home (fuel + 2) (.suspended (polling tx period timeout deadline due since), w) =
        (.done (w.chain.outcome? tx (due ≤ w.now && w.flip.1).toNat), v) ∧
      v.now = w.now ∧ v.chain = w.chain.polled tx (due ≤ w.now && w.flip.1).toNat := by
  have hlast : (World.stopped { w with ready := [] } home).ready = [] := by
    show [] ++ ((World.cancellable { w with ready := [] } home).filter _) = []
    rw [show World.cancellable { w with ready := [] } home = [] from hnone]
    rfl
  let u : World := { World.stopped { w with ready := [] } home with foregroundWoken := false }
  have hcancelled : u.isCancelled home := by
    obtain ⟨h, hhome, -⟩ := Option.map_eq_some_iff.1 hs
    show ((w.homes.modify home fun h => { h with cancelled := true })[home]?).any (·.cancelled) = true
    rw [Array.getElem?_modify, if_pos rfl, hhome]
    rfl
  have hnow : u.now = w.now := World.now_stopped { w with ready := [] } home
  have hchain : u.chain = w.chain := World.chain_stopped { w with ready := [] } home
  have hflip : u.flip.1 = w.flip.1 := congrArg (·.headD false) (World.flips_stopped { w with ready := [] } home)
  have hover : u.isCancelled home ∨ deadline ≤ u.now := .inl hcancelled
  obtain ⟨v, hresume, hv⟩ := resume_over tx period timeout due since hover
  rw [hnow, hchain, hflip] at hresume hv
  refine ⟨v, ?_, hv⟩
  rw [finish_ready hready, hrun, finish_woken hlast rfl, hresume, finish_done]

variable {time since' : Nat}

theorem timers_stopping (htasks : w.tasks = #[⟨home, .suspended (stopping ms time since')⟩]) :
    w.timers = [(time, since', 0)] := by
  unfold World.timers World.suspensions
  rw [htasks]
  exact List.mergeSort_singleton _

theorem cancellable_stopping (htasks : w.tasks = #[⟨home, .suspended (stopping ms time since')⟩]) :
    w.cancellable home = [] := by
  unfold World.cancellable World.suspensions
  rw [htasks]
  show ((List.filter _ [(0, home, stopping ms time since')]).mergeSort _).map _ = []
  rw [List.filter_cons_of_neg (by simp [stopping, World.isCancellable]), List.filter_nil, List.mergeSort_nil]
  rfl

theorem advance_stopping (hw : w.Waits home)
    (htasks : w.tasks = #[⟨home, .suspended (stopping ms time since')⟩]) (hnow : w.now ≤ time) :
    w.advance time = { w with now := time, ready := [0] } := by
  have hmax : max w.now time = time := Nat.max_eq_right hnow
  have htimers : World.timers { w with now := time } = [(time, since', 0)] := timers_stopping htasks
  unfold World.advance
  dsimp only
  rw [hmax, htimers]
  unfold World.wake
  rw [hw.ready]
  simp

/-- Whether a poll still goes that is due when its home is stopped. It may come before the task that stops the home,
and after that it may still go before the cancellation. -/
def World.pollGoes (w : World) : Bool :=
  !w.flip.1 || w.flip.2.flip.1

theorem finish_cut (hw : w.Waits home) (hs : w.settings? home = some s)
    (htasks : w.tasks = #[⟨home, .suspended (stopping ms time since')⟩]) (hnow : w.now ≤ time) (hdue : time ≤ due)
    (hdeadline : time < deadline) (hperiod : 0 < period) : ∃ v,
    finish home (fuel + 3) (.suspended (polling tx period timeout deadline due since), w) =
        (.done (w.chain.outcome? tx (due ≤ time && w.pollGoes).toNat), v) ∧
      v.now = time ∧ v.chain = w.chain.polled tx (due ≤ time && w.pollGoes).toNat := by
  have htimers : w.timers = [(time, since', 0)] := timers_stopping htasks
  have hown : (polling tx period timeout deadline due since).wait.due? = some (min deadline due) := rfl
  have hnext : w.nextDue (polling tx period timeout deadline due since).wait = some time := by
    refine World.nextDue_eq_some (.inr ⟨(time, since', 0), ?_, rfl⟩) ?_ fun d hd => ?_
    · rw [htimers]
      exact List.mem_singleton_self _
    · rw [htimers]
      exact List.forall_mem_singleton.2 (Nat.le_refl time)
    · rw [hown] at hd
      rw [← Option.some.inj hd]
      exact Nat.le_min.2 ⟨Nat.le_of_lt hdeadline, hdue⟩
  -- Whatever became of a poll, the task that stops the others is next in line.
  have hstops (stamp : Nat) (chain : ChainSource) (flips : List Bool) (due since : Nat) : ∃ v,
      finish home (fuel + 2) (.suspended (polling tx period timeout deadline due since),
          { w with now := time, ready := [0], chain, stamp, flips }) =
            (.done (chain.outcome? tx (due ≤ time && flips.headD false).toNat), v) ∧
        v.now = time ∧ v.chain = chain.polled tx (due ≤ time && flips.headD false).toNat := by
    let u : World := { w with now := time, ready := [0], chain, stamp, flips }
    have hrun : World.runTask { u with ready := [] } 0 = World.stopped { u with ready := [] } home :=
      runTask_stopping hs (congrArg (·[0]?) htasks) (Nat.le_refl time)
    have hnone : u.cancellable home = [] := cancellable_stopping htasks
    exact finish_stopped (w := u) hs rfl hrun hnone
  let u : World := { w with now := time, ready := [0] }
  have hadvance : w.advance time = u := advance_stopping hw htasks hnow
  have hrace : (w.advance time).race ((polling tx period timeout deadline due since).wait.due?.any
      (· ≤ (w.advance time).now)) (!(w.advance time).ready.isEmpty) = u.race (due ≤ time) true := by
    have hmin : min deadline due ≤ time ↔ due ≤ time := by omega
    rw [hadvance, hown]
    exact congrArg (u.race · true) (decide_eq_decide.2 hmin)
  by_cases hcome : due ≤ time
  · obtain rfl : due = time := Nat.le_antisymm hcome hdue
    rw [decide_eq_true hcome] at hrace
    rw [decide_eq_true hcome, Bool.true_and]
    unfold World.pollGoes
    cases hflip : w.flip.1 with
    | false =>
      have hgo : ¬u.flip.2.isCancelled home := hw.going
      have hcomes : u.flip.2.now = due := rfl
      have hlater : decide (due + period ≤ due) = false := decide_eq_false (by omega)
      obtain ⟨v, hfinish, hv⟩ := hstops (w.stamp + 1) (w.chain.polled tx 1) w.flips.tail (due + period) w.stamp
      rw [hlater, Bool.false_and] at hfinish hv
      rw [finish_advance hw.ready hw.woken hnext (hrace.trans (World.race_no_flip hflip)), if_pos rfl,
        resume_poll hgo hdeadline hcomes]
      have hsame : u.flip.2.chain.outcome? tx 1 = w.chain.outcome? tx 1 := rfl
      rw [Bool.not_false, Bool.true_or, Bool.toNat_true, hsame]
      cases hpoll : w.chain.outcome? tx 1 with
      | some outcome => exact ⟨_, finish_done _, rfl, rfl⟩
      | none => exact ⟨v, hfinish, hv⟩
    | true =>
      obtain ⟨v, hfinish, hv⟩ := hstops w.stamp w.chain w.flips.tail due since
      rw [decide_eq_true hcome, Bool.true_and] at hfinish hv
      rw [finish_advance hw.ready hw.woken hnext (hrace.trans (World.race_flip hflip)), if_neg nofun]
      exact ⟨v, hfinish, hv⟩
  · rw [decide_eq_false hcome] at hrace
    rw [finish_advance hw.ready hw.woken hnext hrace, decide_eq_false hcome, Bool.false_and]
    obtain ⟨v, hfinish, hv⟩ := hstops w.stamp w.chain w.flips due since
    rw [decide_eq_false hcome, Bool.false_and] at hfinish hv
    exact ⟨v, hfinish, hv⟩

section Stopped

variable (hw : w.Waits home) (htasks : w.tasks = #[]) (hs : w.settings? home = some s)
include hw htasks hs

theorem spawn_stopAfter : (w.spawn home (.stopAfter time)).2 =
    { w with tasks := #[⟨home, .runnable ((Routine.stopAfter time).turn s)⟩], ready := [0] } := by
  unfold World.spawn
  rw [hs, htasks]
  dsimp only
  unfold World.wake
  rw [hw.ready]
  rfl

variable (hperiod : 0 < period)
include hperiod

section Started

variable (htimeout : 0 < timeout)
include htimeout

theorem run_spawned : run home (awaitReceipt tx period timeout) (w.spawn home (.stopAfter time)).2 =
    (.suspended (polling tx period timeout (w.now + timeout) (w.now + period) w.stamp), { w with
      tasks := #[⟨home, .runnable ((Routine.stopAfter time).turn s)⟩], ready := [0], stamp := w.stamp + 1 }) := by
  rw [spawn_stopAfter hw htasks hs]
  let u : World := { w with tasks := #[⟨home, .runnable ((Routine.stopAfter time).turn s)⟩], ready := [0] }
  have hgo : ¬u.isCancelled home := hw.going
  rw [run_awaitReceipt hgo hperiod htimeout]

theorem run_stopping (tx : TxHash) (htime : 0 < time) : ∃ u since', (∀ fuel, finish home (fuel + 1)
      (run home (awaitReceipt tx period timeout) (w.spawn home (.stopAfter time)).2) =
    finish home fuel (.suspended (polling tx period timeout (u.now + timeout) (u.now + period) w.stamp), u)) ∧
      u.now = w.now ∧ u.chain = w.chain ∧ u.flips = w.flips ∧ u.Waits home ∧ u.settings? home = some s ∧
      u.tasks = #[⟨home, .suspended (stopping time (u.now + time) since')⟩] := by
  let u : World := { w with
    tasks := #[⟨home, .runnable ((Routine.stopAfter time).turn s)⟩], ready := [], stamp := w.stamp + 1 }
  have hrun : u.runTask 0 = { u with stamp := u.stamp + 1 }.setTask 0 home
      (.suspended (stopping time (u.now + time) u.stamp)) := by
    rw [runTask_stopAfter (w := u) hs rfl, if_neg (Nat.ne_of_gt htime)]
  have hnow : (u.runTask 0).now = w.now := by
    rw [hrun]
    rfl
  refine ⟨u.runTask 0, u.stamp, fun fuel => ?_, hnow, ?_⟩
  · rw [run_spawned hw htasks hs hperiod htimeout, hnow]
    exact finish_ready rfl
  · rw [hrun]
    exact ⟨rfl, rfl, ⟨rfl, hw.woken, hw.going⟩, hs, rfl⟩

theorem awaitReceipt_before (hk : k * period < time) (htime : time < timeout) (hfuel : k + 1 ≤ fuel)
    (hbefore : ∀ j < k, w.chain.outcome? tx j = none) (hmined : w.chain.outcome? tx k = some outcome) : ∃ v,
    finish home fuel (run home (awaitReceipt tx period timeout) (w.spawn home (.stopAfter time)).2) =
      (.done (some outcome), v) ∧ v.now = w.now + k * period ∧ v.chain = w.chain.polled tx k := by
  have hpos : 0 < time := Nat.zero_lt_of_lt hk
  obtain ⟨rest, rfl⟩ := Nat.le.dest hfuel
  obtain ⟨u, since', hfinish, hnow, hchain, -, hu, -, hstopping⟩ :=
    run_stopping hw htasks hs hperiod htimeout tx hpos
  rw [← hchain] at hbefore hmined ⊢
  rw [← hnow, Nat.add_right_comm, Nat.add_comm k, hfinish]
  refine finish_first hu hperiod (Nat.add_lt_add_left (Nat.lt_trans hk htime) _) ?_ hbefore hmined
  rw [timers_stopping hstopping]
  exact List.forall_mem_singleton.2 (Nat.add_lt_add_left hk _)

theorem awaitReceipt_stopped (tx : TxHash) (fuel : Nat) : ∃ v,
    finish home (fuel + 2) (run home (awaitReceipt tx period timeout) (w.spawn home (.stopAfter 0)).2) =
      (.done none, v) ∧ v.now = w.now ∧ v.chain = w.chain := by
  let u : World := { w with
    tasks := #[⟨home, .runnable ((Routine.stopAfter 0).turn s)⟩], ready := [0], stamp := w.stamp + 1 }
  have hrun : World.runTask { u with ready := [] } 0 = World.stopped { u with ready := [] } home := by
    rw [runTask_stopAfter (w := { u with ready := [] }) hs rfl, if_pos rfl]
  have hnone : u.cancellable home = [] := by
    show (List.mergeSort [] _).map _ = []
    rw [List.mergeSort_nil]
    rfl
  have hearly : decide (w.now + period ≤ u.now) = false := decide_eq_false (Nat.not_le.2 (Nat.lt_add_of_pos_right hperiod))
  obtain ⟨v, hfinish, hv⟩ : ∃ v,
      finish home (fuel + 2) (.suspended (polling tx period timeout (w.now + timeout) (w.now + period) w.stamp), u) =
          (.done (u.chain.outcome? tx (w.now + period ≤ u.now && u.flip.1).toNat), v) ∧
        v.now = u.now ∧ v.chain = u.chain.polled tx (w.now + period ≤ u.now && u.flip.1).toNat :=
    finish_stopped hs rfl hrun hnone
  rw [hearly, Bool.false_and] at hfinish hv
  rw [run_spawned hw htasks hs hperiod htimeout]
  exact ⟨v, hfinish, hv⟩

theorem awaitReceipt_cut (htime : time < timeout) (hfuel : timeout / period + 4 ≤ fuel)
    (hnone : ∀ k, k * period < time → w.chain.outcome? tx k = none) : ∃ v n,
    finish home fuel (run home (awaitReceipt tx period timeout) (w.spawn home (.stopAfter time)).2) =
        (.done (w.chain.outcome? tx n), v) ∧
      v.now = w.now + time ∧ v.chain = w.chain.polled tx n ∧ n ≤ time / period ∧
      ∀ k, k * period = time → n = if w.pollGoes then k else k - 1 := by
  rcases Nat.eq_zero_or_pos time with rfl | hpos
  · obtain ⟨rest, rfl⟩ := Nat.le.dest (Nat.le_trans (Nat.le_add_left 2 (timeout / period + 2)) hfuel)
    rw [Nat.add_comm]
    obtain ⟨v, hend, hnow, hchain⟩ := awaitReceipt_stopped hw htasks hs hperiod htimeout tx rest
    refine ⟨v, 0, hend, hnow, hchain, Nat.zero_le _, fun k hk => ?_⟩
    obtain rfl : k = 0 := (Nat.mul_eq_zero.1 hk).resolve_right (Nat.ne_of_gt hperiod)
    exact (ite_self 0).symm
  · obtain ⟨n, hlt, hle⟩ := exists_polls hperiod hpos
    have hfuel' : n + 4 ≤ fuel := by
      have hn : n ≤ timeout / period :=
        (Nat.le_div_iff_mul_le hperiod).2 (Nat.le_of_lt (Nat.lt_trans hlt htime))
      omega
    obtain ⟨rest, rfl⟩ := Nat.le.dest hfuel'
    obtain ⟨u, since', hfinish, hnow, hchain, hflips, hu, hset, hstopping⟩ :=
      run_stopping hw htasks hs hperiod htimeout tx hpos
    have htimers : u.timers = [(u.now + time, since', 0)] := timers_stopping hstopping
    rw [← hchain] at hnone ⊢
    have hbefore : ∀ k ≤ n, u.chain.outcome? tx k = none := fun k hk =>
      hnone k (Nat.lt_of_le_of_lt (Nat.mul_le_mul_right period hk) hlt)
    obtain ⟨since'', hpolls⟩ := finish_polls hu (Nat.add_lt_add_left (Nat.lt_trans hlt htime) _)
      (htimers ▸ List.forall_mem_singleton.2 (Nat.add_lt_add_left hlt _)) hbefore
    have hdue : u.now + time ≤ u.now + n * period + period := by
      rw [Nat.add_assoc]
      exact Nat.add_le_add_left hle _
    obtain ⟨v, hcut, hv, hpolled⟩ := finish_cut hu.polled hset hstopping (Nat.add_le_add_left (Nat.le_of_lt hlt) _)
      hdue (Nat.add_lt_add_left htime _) hperiod
    have hcome : decide (u.now + n * period + period ≤ u.now + time) = decide (n * period + period ≤ time) := by
      rw [Nat.add_assoc]
      exact decide_eq_decide.2 (Nat.add_le_add_iff_left)
    have hgoes : (u.polled tx period n).pollGoes = w.pollGoes := by
      unfold World.pollGoes World.flip
      rw [← hflips]
      rfl
    rw [hcome, hgoes] at hcut hpolled
    obtain ⟨hcount, hexact⟩ := count_polls hperiod w.pollGoes hlt hle
    have hfuel'' : n + 4 + rest = rest + 3 + n + 1 := by omega
    refine ⟨v, _, ?_, hv.trans (by rw [hnow]), ?_, hcount, hexact⟩
    · rw [hfuel'', hfinish, hpolls, ChainSource.outcome?_add hbefore]
      exact hcut
    · rw [ChainSource.polled_add]
      exact hpolled

end Started

theorem awaitReceipt_given_before (htime : time < timeout) (hfuel : timeout / period + 4 ≤ fuel)
    (hfinish : finish home fuel (run home (awaitReceipt tx period timeout) (w.spawn home (.stopAfter time)).2) =
      (.done (some outcome), v)) : ∃ k, k * period ≤ time ∧ w.chain.outcome? tx k = some outcome := by
  have htimeout : 0 < timeout := Nat.zero_lt_of_lt htime
  obtain hnone | ⟨k, hk, first, hbefore, hmined⟩ := w.chain.exists_first tx (time / period)
  · obtain ⟨v', n, hend, -, -, hn, -⟩ := awaitReceipt_cut hw htasks hs hperiod htimeout htime hfuel fun k hk =>
      hnone k ((Nat.le_div_iff_mul_le hperiod).2 (Nat.le_of_lt hk))
    rw [hnone n hn] at hend
    cases hfinish.symm.trans hend
  · have hle : k * period ≤ time := (Nat.le_div_iff_mul_le hperiod).1 hk
    by_cases hearly : k * period < time
    · have hfuel' : k + 1 ≤ fuel := by
        have := Nat.div_le_div_right (c := period) (Nat.le_of_lt htime)
        omega
      obtain ⟨v', hend, -⟩ := awaitReceipt_before hw htasks hs hperiod htimeout hearly htime hfuel' hbefore hmined
      cases hfinish.symm.trans hend
      exact ⟨k, hle, hmined⟩
    · obtain ⟨v', n, hend, -, -, hn, -⟩ := awaitReceipt_cut hw htasks hs hperiod htimeout htime hfuel fun j hj =>
        hbefore j (Nat.lt_of_mul_lt_mul_right (Nat.lt_of_lt_of_le hj (Nat.not_lt.1 hearly)))
      have hgiven := (Stop.done.inj (congrArg Prod.fst (hfinish.symm.trans hend))).symm
      exact ⟨n, (Nat.le_div_iff_mul_le hperiod).1 hn, hgiven⟩

end Stopped

end Stopping

/-- The first poll that brings an outcome ends the waiting, unless the deadline does or the home is
stopped before. A poll that is due at that very time may go first or not. -/
theorem receipt_awaited {s : Agent.Settings} (tx : TxHash) (hw : w.Waits home) (htasks : w.tasks = #[])
    (hs : w.settings? home = some s) (hperiod : 0 < period) (hfuel : timeout / period + 4 ≤ fuel) :
    (∀ k outcome, k * period < timeout → (∀ j < k, w.chain.outcome? tx j = none) →
      w.chain.outcome? tx k = some outcome → ∃ v,
        finish home fuel (run home (awaitReceipt tx period timeout) w) = (.done (some outcome), v) ∧
        v.now = w.now + k * period ∧ v.chain = w.chain.polled tx k) ∧
    ((∀ k, k * period ≤ timeout → w.chain.outcome? tx k = none) → ∃ v n,
      finish home fuel (run home (awaitReceipt tx period timeout) w) = (.done none, v) ∧
      v.now = w.now + timeout ∧ n ≤ timeout / period ∧ v.chain = w.chain.polled tx n) ∧
    (∀ k outcome, k * period = timeout → (∀ j < k, w.chain.outcome? tx j = none) →
      w.chain.outcome? tx k = some outcome → ∃ v,
        finish home fuel (run home (awaitReceipt tx period timeout) w) =
          (.done (if w.flip.1 then some outcome else none), v) ∧
        v.now = w.now + timeout ∧ v.chain = w.chain.polled tx (if w.flip.1 then k else k - 1)) ∧
    (∀ time < timeout, (∀ k, k * period ≤ time → w.chain.outcome? tx k = none) → ∃ v,
      finish home fuel (run home (awaitReceipt tx period timeout) (w.spawn home (.stopAfter time)).2) =
        (.done none, v) ∧ v.now = w.now + time) ∧
    (∀ time < timeout, ∀ k outcome, k * period < time → (∀ j < k, w.chain.outcome? tx j = none) →
      w.chain.outcome? tx k = some outcome → ∃ v,
        finish home fuel (run home (awaitReceipt tx period timeout) (w.spawn home (.stopAfter time)).2) =
          (.done (some outcome), v) ∧ v.now = w.now + k * period ∧ v.chain = w.chain.polled tx k) ∧
    (∀ time < timeout, ∀ k outcome, k * period = time → (∀ j < k, w.chain.outcome? tx j = none) →
      w.chain.outcome? tx k = some outcome → ∃ v,
        finish home fuel (run home (awaitReceipt tx period timeout) (w.spawn home (.stopAfter time)).2) =
          (.done (if w.pollGoes then some outcome else none), v) ∧
        v.now = w.now + time ∧ v.chain = w.chain.polled tx (if w.pollGoes then k else k - 1)) ∧
    ∀ outcome v, finish home fuel (run home (awaitReceipt tx period timeout) w) = (.done (some outcome), v) ∨
      (∃ time < timeout, finish home fuel
        (run home (awaitReceipt tx period timeout) (w.spawn home (.stopAfter time)).2) = (.done (some outcome), v)) →
      ∃ k, k * period ≤ timeout ∧ w.chain.outcome? tx k = some outcome := by
  have hcount {k time : Nat} (hk : k * period ≤ time) (htime : time ≤ timeout) : k + 4 ≤ fuel := by
    have hle : k ≤ timeout / period := (Nat.le_div_iff_mul_le hperiod).2 (Nat.le_trans hk htime)
    omega
  have hfuel' : timeout / period + 1 ≤ fuel := by omega
  have hup {n time : Nat} (hn : n ≤ time / period) : n * period ≤ time := (Nat.le_div_iff_mul_le hperiod).1 hn
  refine ⟨?_, ?_, ?_, ?_, ?_, ?_, ?_⟩
  · intro k outcome hk hbefore hmined
    have := hcount (Nat.le_of_lt hk) (Nat.le_refl timeout)
    exact awaitReceipt_first hw htasks hperiod hk (by omega) hbefore hmined
  · intro hnone
    obtain ⟨v, n, hend, hnow, hchain, hn, -⟩ := awaitReceipt_late hw htasks hperiod hfuel' fun k hk =>
      hnone k (Nat.le_of_lt hk)
    rw [hnone n (hup hn)] at hend
    exact ⟨v, n, hend, hnow, hn, hchain⟩
  · intro k outcome hk hbefore hmined
    obtain ⟨v, n, hend, hnow, hchain, -, hexact⟩ := awaitReceipt_late hw htasks hperiod hfuel' fun j hj =>
      hbefore j (Nat.lt_of_mul_lt_mul_right (hk ▸ hj))
    rw [hexact k hk] at hend hchain
    rw [ChainSource.outcome?_last hbefore hmined] at hend
    exact ⟨v, hend, hnow, hchain⟩
  · intro time htime hnone
    obtain ⟨v, n, hend, hnow, -, hn, -⟩ := awaitReceipt_cut hw htasks hs hperiod (Nat.zero_lt_of_lt htime) htime hfuel
      fun k hk => hnone k (Nat.le_of_lt hk)
    rw [hnone n (hup hn)] at hend
    exact ⟨v, hend, hnow⟩
  · intro time htime k outcome hk hbefore hmined
    have := hcount (Nat.le_of_lt hk) (Nat.le_of_lt htime)
    exact awaitReceipt_before hw htasks hs hperiod (Nat.zero_lt_of_lt htime) hk htime (by omega) hbefore hmined
  · intro time htime k outcome hk hbefore hmined
    obtain ⟨v, n, hend, hnow, hchain, -, hexact⟩ :=
      awaitReceipt_cut hw htasks hs hperiod (Nat.zero_lt_of_lt htime) htime hfuel fun j hj =>
        hbefore j (Nat.lt_of_mul_lt_mul_right (hk ▸ hj))
    rw [hexact k hk] at hend hchain
    rw [ChainSource.outcome?_last hbefore hmined] at hend
    exact ⟨v, hend, hnow, hchain⟩
  · rintro outcome v (hfinish | ⟨time, htime, hfinish⟩)
    · exact awaitReceipt_given hw htasks hperiod hfuel' hfinish
    · obtain ⟨k, hk, hmined⟩ := awaitReceipt_given_before hw htasks hs hperiod htime hfuel hfinish
      exact ⟨k, Nat.le_trans hk (Nat.le_of_lt htime), hmined⟩

theorem receipt_awaited_thirdPoll : ∃ (w : World) (s : Agent.Settings) (tx : TxHash), w.Waits 0 ∧ w.tasks = #[] ∧
    w.settings? 0 = some s ∧ 0 < 2 ∧ 30 / 2 + 4 ≤ 19 ∧
    (∃ v, finish 0 19 (run 0 (awaitReceipt tx 2 30) w) = (.done (some ⟨some 12, true⟩), v) ∧ v.now = w.now + 3 * 2) ∧
    (∃ v, finish 0 19 (run 0 (awaitReceipt tx 2 30) (w.spawn 0 (.stopAfter 5)).2) = (.done none, v) ∧
      v.now = w.now + 5) ∧
    ∀ goes, ∃ v, finish 0 19 (run 0 (awaitReceipt tx 2 6) { w with flips := [goes] }) =
      (.done (if goes then some ⟨some 12, true⟩ else none), v) ∧ v.now = w.now + 6 := by
  let tx : TxHash := .fill 32 7
  let s : Agent.Settings := ⟨.fill 20 1, .fill 20 2, .standard, .standard⟩
  let c : ScriptedChain := .start (.fill 20 1) 12
  let polls : List Poll := [.failed "down", .unmined, .mined ⟨some 12, true⟩]
  let w : World := .start (.scripted (c.script tx polls)) (.memory .empty) s
  have hfailed : w.chain.outcome? tx 1 = none := ChainSource.outcome?_script rfl polls 0
  have hunmined : w.chain.outcome? tx 2 = none := ChainSource.outcome?_script rfl polls 1
  have hmined : w.chain.outcome? tx 3 = some ⟨some 12, true⟩ := ChainSource.outcome?_script rfl polls 2
  have hearly : ∀ k < 3, w.chain.outcome? tx k = none := by
    intro k hk
    rcases k with _ | _ | _ | k
    · rfl
    · exact hfailed
    · exact hunmined
    · omega
  have hw : w.Waits 0 := ⟨rfl, rfl, Bool.false_ne_true⟩
  have hperiod : 0 < 2 := by decide
  have hfuel : 30 / 2 + 4 ≤ 19 := by decide
  obtain ⟨hfirst, -, -, hcut, -⟩ := receipt_awaited tx hw rfl (s := s) rfl hperiod hfuel
  refine ⟨w, s, tx, hw, rfl, rfl, hperiod, hfuel, ?_, hcut 5 (by decide) fun k hk => hearly k (by omega), fun goes => ?_⟩
  · exact (hfirst 3 _ (by decide) hearly hmined).imp fun v hv => ⟨hv.1, hv.2.1⟩
  · have htied : World.Waits { w with flips := [goes] } 0 := ⟨rfl, rfl, Bool.false_ne_true⟩
    have hfuel : 6 / 2 + 4 ≤ 19 := by decide
    obtain ⟨-, -, hlast, -⟩ := receipt_awaited tx htied rfl (s := s) rfl hperiod hfuel
    exact (hlast 3 _ rfl hearly hmined).imp fun v hv => ⟨hv.1, hv.2.1⟩

end CommitReveal.Simulation
