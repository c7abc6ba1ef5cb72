import CommitReveal.Proofs.Races
import CommitReveal.Simulation.Schedule
import Mathlib.Data.Nat.Find

/-! What the polls for a receipt bring, and the single steps of waiting for one: a poll that brings an outcome, one that
does not, the deadline with or without a poll before it. -/
namespace CommitReveal.Simulation

namespace ChainSource

variable {tx : TxHash} {c : ChainSource} {n k : Nat}

def polled (tx : TxHash) : Nat → ChainSource → ChainSource
  | 0, c => c
  | n + 1, c => (c.perform (.transactionReceipt tx)).2.polled tx n

/-- The outcome that a poll brings, counted from one. A poll that fails or finds nothing brings none. -/
def outcome? (tx : TxHash) : Nat → ChainSource → Option TxOutcome
  | 0, _ => none
  | k + 1, c =>
    match ((c.polled tx k).perform (.transactionReceipt tx)).1 with
    | .ok (.ok found) => found
    | _ => none

theorem polled_succ (tx : TxHash) (n : Nat) (c : ChainSource) : c.polled tx (n + 1) = (c.polled tx n).polled tx 1 := by
  induction n generalizing c with
  | zero => rfl
  | succ n ih => exact ih _

theorem polled_add (tx : TxHash) (n m : Nat) (c : ChainSource) : c.polled tx (n + m) = (c.polled tx n).polled tx m := by
  induction m with
  | zero => rfl
  | succ m ih => rw [← Nat.add_assoc, polled_succ, ih, ← polled_succ]

theorem outcome?_add (hbefore : ∀ k ≤ n, c.outcome? tx k = none) (m : Nat) :
    c.outcome? tx (n + m) = (c.polled tx n).outcome? tx m := by
  cases m with
  | zero => exact hbefore n (Nat.le_refl n)
  | succ m =>
    show (match ((c.polled tx (n + m)).perform (.transactionReceipt tx)).1 with
      | .ok (.ok found) => found
      | _ => none) = _
    rw [polled_add]
    rfl

theorem outcome?_last {outcome : TxOutcome} {goes : Bool} (hbefore : ∀ j < k, c.outcome? tx j = none)
    (hmined : c.outcome? tx k = some outcome) :
    c.outcome? tx (if goes then k else k - 1) = if goes then some outcome else none := by
  cases goes with
  | true => exact hmined
  | false =>
    cases k with
    | zero => cases hmined
    | succ k => exact hbefore k (Nat.lt_succ_self k)

theorem exists_first (tx : TxHash) (c : ChainSource) (n : Nat) : (∀ k ≤ n, c.outcome? tx k = none) ∨
    ∃ k ≤ n, ∃ outcome, (∀ j < k, c.outcome? tx j = none) ∧ c.outcome? tx k = some outcome := by
  by_cases hsome : ∃ k, k ≤ n ∧ (c.outcome? tx k).isSome
  · obtain ⟨hk, hmined⟩ := Nat.find_spec hsome
    obtain ⟨outcome, hfound⟩ := Option.isSome_iff_exists.1 hmined
    refine .inr ⟨Nat.find hsome, hk, outcome, fun j hj => ?_, hfound⟩
    have hjn : j ≤ n := Nat.le_trans (Nat.le_of_lt hj) hk
    exact Option.not_isSome_iff_eq_none.1 fun hj' => Nat.find_min hsome hj ⟨hjn, hj'⟩
  · exact .inl fun k hk => Option.not_isSome_iff_eq_none.1 fun hk' => hsome ⟨k, hk, hk'⟩

section Script

variable {c : ScriptedChain} (hplan : c.failures = []) (polls : List Poll)
include hplan

theorem perform_script : (ChainSource.scripted (c.script tx polls)).perform (.transactionReceipt tx) =
    (.ok (match polls with
      | .unmined :: _ => .ok none
      | .failed reason :: _ => .error (.rpc reason)
      | .mined outcome :: _ => .ok (some outcome)
      | [] => .ok (c.receiptOf tx)), .scripted (c.script tx polls.tail)) := by
  have hfail : (c.script tx polls).fail (.ofCall (.transactionReceipt tx)) = (none, c.script tx polls) := by
    unfold ScriptedChain.fail
    rw [show (c.script tx polls).failures = [] from hplan]
    rfl
  have hagain (rest : List Poll) : (c.script tx polls).script tx rest = c.script tx rest := by
    unfold ScriptedChain.script
    simp
  have hnext : (c.script tx polls).nextPoll tx = (polls.head?, c.script tx polls.tail) := by
    unfold ScriptedChain.nextPoll
    rw [show (c.script tx polls).scripts.find? (fun s => s.1 = tx) = some (tx, polls) from
      List.find?_cons_of_pos (by simp)]
    cases polls with
    | nil => rfl
    | cons poll rest => exact congrArg (Prod.mk _) (hagain rest)
  unfold ChainSource.perform ScriptedChain.perform
  dsimp only
  rw [hfail]
  dsimp only [ScriptedChain.answer]
  unfold ScriptedChain.transactionReceipt
  rw [hnext]
  rcases polls with _ | ⟨_ | _ | _, _⟩ <;> rfl

theorem polled_script (n : Nat) : (ChainSource.scripted (c.script tx polls)).polled tx n =
    .scripted (c.script tx (polls.drop n)) := by
  induction n generalizing polls with
  | zero => rfl
  | succ n ih =>
    unfold polled
    rw [perform_script hplan, ih, List.drop_tail]

theorem outcome?_script (k : Nat) : (ChainSource.scripted (c.script tx polls)).outcome? tx (k + 1) =
    match polls[k]? with
    | some (.mined outcome) => some outcome
    | some _ => none
    | none => c.receiptOf tx := by
  dsimp only [outcome?]
  rw [polled_script hplan, perform_script hplan, ← List.head?_drop]
  rcases polls.drop k with _ | ⟨_ | _ | _, _⟩ <;> rfl

end Script

end ChainSource

variable {α : Type} {home n k period timeout deadline due since fuel : Nat} {tx : TxHash} {w : World}
  {outcome : TxOutcome}

def polling (tx : TxHash) (period timeout deadline due since : Nat) : Suspended (Option TxOutcome) :=
  ⟨.receipt tx period timeout, .receipt ⟨deadline, ⟨period, due⟩⟩, since, .done⟩

theorem World.tryReceipt_eq (w : World) (tx : TxHash) (vain : Reply (Option TxOutcome)) :
    w.tryReceipt tx vain = (match w.chain.outcome? tx 1 with
      | some outcome => .answer (some outcome)
      | none => vain, { w with chain := w.chain.polled tx 1 }) := by
  unfold tryReceipt callChain
  dsimp only [ChainSource.outcome?, ChainSource.polled]
  rcases (w.chain.perform (.transactionReceipt tx)).1 with f | cause | found
  · rfl
  · rfl
  · cases found <;> rfl

theorem pollReceipt_over (tx : TxHash) (period due : Nat) (hover : w.isCancelled home ∨ deadline ≤ w.now) : ∃ v,
    w.pollReceipt home tx ⟨deadline, ⟨period, due⟩⟩ false =
        (.answer (w.chain.outcome? tx (due ≤ w.now && w.flip.1).toNat), v) ∧
      v.now = w.now ∧ v.chain = w.chain.polled tx (due ≤ w.now && w.flip.1).toNat := by
  have htrue : (w.isCancelled home || ReceiptWait.isOver ⟨deadline, ⟨period, due⟩⟩ w.now) = true := by
    rw [Bool.or_eq_true]
    exact hover.imp id decide_eq_true
  have hready : ReceiptWait.isDue ⟨deadline, ⟨period, due⟩⟩ w.now = decide (due ≤ w.now) := rfl
  unfold World.pollReceipt
  rw [htrue, hready]
  cases decide (due ≤ w.now) with
  | false => exact ⟨w, rfl, rfl, rfl⟩
  | true =>
    rw [Bool.true_and]
    dsimp only [World.race]
    cases w.flip.1 with
    | false => exact ⟨w.flip.2, rfl, rfl, rfl⟩
    | true =>
      have hchain : w.flip.2.chain = w.chain := rfl
      refine ⟨{ w.flip.2 with chain := w.chain.polled tx 1 }, (w.flip.2.tryReceipt_eq tx _).trans ?_, rfl, rfl⟩
      rw [hchain]
      show _ = (World.Reply.answer (w.chain.outcome? tx 1), _)
      cases w.chain.outcome? tx 1 <;> rfl

theorem resume_over (tx : TxHash) (period timeout due since : Nat) (hover : w.isCancelled home ∨ deadline ≤ w.now) : ∃ v,
    resume home (polling tx period timeout deadline due since) w =
        (.done (w.chain.outcome? tx (due ≤ w.now && w.flip.1).toNat), v) ∧
      v.now = w.now ∧ v.chain = w.chain.polled tx (due ≤ w.now && w.flip.1).toNat := by
  obtain ⟨v, hpoll, hv⟩ := pollReceipt_over tx period due hover
  refine ⟨v, ?_, hv⟩
  unfold resume
  dsimp only [polling, World.poll]
  rw [hpoll]
  rfl

theorem resume_poll (hgo : ¬w.isCancelled home) (hnow : w.now < deadline) (hdue : w.now = due) :
    resume home (polling tx period timeout deadline due since) w = match w.chain.outcome? tx 1 with
      | some outcome => (.done (some outcome), { w with chain := w.chain.polled tx 1 })
      | none => (.suspended (polling tx period timeout deadline (due + period) w.stamp),
        { w with chain := w.chain.polled tx 1, stamp := w.stamp + 1 }) := by
  have hgoing : (w.isCancelled home || ReceiptWait.isOver ⟨deadline, ⟨period, due⟩⟩ w.now) = false := by
    rw [eq_false_of_ne_true hgo]
    exact decide_eq_false (Nat.not_le.2 hnow)
  have hready : ReceiptWait.isDue ⟨deadline, ⟨period, due⟩⟩ w.now = true := decide_eq_true (Nat.le_of_eq hdue.symm)
  have hnext : ReceiptWait.next ⟨deadline, ⟨period, due⟩⟩ w.now = ⟨deadline, ⟨period, due + period⟩⟩ := by
    unfold ReceiptWait.next Ticker.next
    rw [if_neg (by rw [hdue]; exact Nat.not_lt.2 (Nat.le_add_right _ _))]
  have hpoll : w.pollReceipt home tx ⟨deadline, ⟨period, due⟩⟩ false = (match w.chain.outcome? tx 1 with
      | some outcome => .answer (some outcome)
      | none => .wait (.receipt ⟨deadline, ⟨period, due + period⟩⟩) true,
      { w with chain := w.chain.polled tx 1 }) := by
    unfold World.pollReceipt
    rw [hgoing, hready, ← hnext]
    exact w.tryReceipt_eq tx _
  unfold resume
  dsimp only [polling, World.poll]
  rw [hpoll]
  cases w.chain.outcome? tx 1 <;> rfl

theorem World.nextDue_eq_some {wait : Wait} {time : Nat}
    (hmem : wait.due? = some time ∨ ∃ t ∈ w.timers, t.1 = time) (htimers : ∀ t ∈ w.timers, time ≤ t.1)
    (hwait : ∀ due, wait.due? = some due → time ≤ due) : w.nextDue wait = some time := by
  unfold nextDue
  refine List.min?_eq_some_iff.2 ⟨List.mem_append.2 ?_, fun b hb => ?_⟩
  · obtain hown | ⟨t, ht, rfl⟩ := hmem
    · rw [hown]
      exact .inr (List.mem_singleton_self time)
    · exact .inl (List.mem_map_of_mem ht)
  · rcases List.mem_append.1 hb with hb | hb
    · obtain ⟨t, ht, rfl⟩ := List.mem_map.1 hb
      exact htimers t ht
    · exact hwait b (by simpa using hb)

theorem World.advance_eq {time : Nat} (hready : w.ready = []) (hnow : w.now ≤ time)
    (htimers : ∀ t ∈ w.timers, time < t.1) : w.advance time = { w with now := time } := by
  have hmax : max w.now time = time := Nat.max_eq_right hnow
  have hnone : w.timers.filter (fun t => t.1 ≤ time) = [] :=
    List.filter_eq_nil_iff.2 fun t ht => by simpa using htimers t ht
  unfold advance
  dsimp only
  rw [hmax]
  show World.wake { w with now := time } ((w.timers.filter fun t => t.1 ≤ time).map (·.2.2)) = _
  rw [hnone]
  unfold wake
  rw [hready]
  rfl

theorem finish_done (a : α) : finish home fuel (.done a, w) = (.done a, w) := by
  cases fuel <;> rfl

theorem finish_ready {s : Suspended α} {id : Nat} {rest : List Nat} (hready : w.ready = id :: rest) :
    finish home (fuel + 1) (.suspended s, w) =
      finish home fuel (.suspended s, World.runTask { w with ready := rest } id) := by
  rw [finish, hready]

theorem finish_woken {s : Suspended α} (hready : w.ready = []) (hwoken : w.foregroundWoken = true) :
    finish home (fuel + 1) (.suspended s, w) =
      finish home fuel (resume home s { w with foregroundWoken := false }) := by
  rw [finish, hready]
  exact if_pos hwoken

theorem finish_advance {s : Suspended α} {time : Nat} {v : World} {branch : Option Branch} (hready : w.ready = [])
    (hwoken : w.foregroundWoken = false) (hnext : w.nextDue s.wait = some time)
    (hrace : (w.advance time).race (s.wait.due?.any (· ≤ (w.advance time).now)) (!(w.advance time).ready.isEmpty) =
      (branch, v)) : finish home (fuel + 1) (.suspended s, w) =
      if branch = some .first then finish home fuel (resume home s v) else finish home fuel (.suspended s, v) := by
  rw [finish, hready]
  dsimp only
  rw [hwoken, hnext, if_neg Bool.false_ne_true]
  dsimp only
  rw [hrace]
  rcases branch with _ | _ | _ <;> rfl

theorem finish_alone {s : Suspended α} {time : Nat} (hready : w.ready = []) (hwoken : w.foregroundWoken = false)
    (hdue : s.wait.due? = some time) (htimers : ∀ t ∈ w.timers, time < t.1) (hnow : w.now ≤ time) :
    finish home (fuel + 1) (.suspended s, w) = finish home fuel (resume home s { w with now := time }) := by
  have hnext : w.nextDue s.wait = some time := World.nextDue_eq_some (.inl hdue)
    (fun t ht => Nat.le_of_lt (htimers t ht)) fun d hd => Nat.le_of_eq (Option.some.inj (hdue.symm.trans hd))
  have hcome : s.wait.due?.any (· ≤ time) = true := by
    rw [hdue]
    exact decide_eq_true (Nat.le_refl time)
  have hadvance := World.advance_eq hready hnow htimers
  have hrace : (w.advance time).race (s.wait.due?.any (· ≤ (w.advance time).now)) (!(w.advance time).ready.isEmpty) =
      (some .first, { w with now := time }) := by
    rw [hadvance]
    dsimp only
    rw [hcome, hready]
    rfl
  rw [finish_advance hready hwoken hnext hrace, if_pos rfl]

structure World.Waits (w : World) (home : Nat) : Prop where
  ready : w.ready = []
  woken : w.foregroundWoken = false
  going : ¬w.isCancelled home

theorem World.Waits.later {time stamp : Nat} {chain : ChainSource} (hw : w.Waits home) :
    World.Waits { w with now := time, chain, stamp } home :=
  ⟨hw.ready, hw.woken, hw.going⟩

/-- The next thing to happen is a poll. -/
theorem finish_poll (hw : w.Waits home) (hdue : due < deadline) (htimers : ∀ t ∈ w.timers, due < t.1)
    (hnow : w.now ≤ due) : finish home (fuel + 1) (.suspended (polling tx period timeout deadline due since), w) =
      finish home fuel (match w.chain.outcome? tx 1 with
      | some outcome => (.done (some outcome), { w with now := due, chain := w.chain.polled tx 1 })
      | none => (.suspended (polling tx period timeout deadline (due + period) w.stamp),
        { w with now := due, chain := w.chain.polled tx 1, stamp := w.stamp + 1 })) := by
  have hown : (polling tx period timeout deadline due since).wait.due? = some due :=
    congrArg some (Nat.min_eq_right (Nat.le_of_lt hdue))
  rw [finish_alone hw.ready hw.woken hown htimers hnow, resume_poll hw.later.going hdue rfl]

theorem finish_mined (hw : w.Waits home) (hdue : due < deadline) (htimers : ∀ t ∈ w.timers, due < t.1)
    (hnow : w.now ≤ due) (hmined : w.chain.outcome? tx 1 = some outcome) : ∃ v,
    finish home (fuel + 1) (.suspended (polling tx period timeout deadline due since), w) =
      (.done (some outcome), v) ∧ v.now = due ∧ v.chain = w.chain.polled tx 1 := by
  rw [finish_poll hw hdue htimers hnow, hmined]
  exact ⟨_, finish_done _, rfl, rfl⟩

theorem finish_unmined (hw : w.Waits home) (hdue : due < deadline) (htimers : ∀ t ∈ w.timers, due < t.1)
    (hnow : w.now ≤ due) (hunmined : w.chain.outcome? tx 1 = none) :
    finish home (fuel + 1) (.suspended (polling tx period timeout deadline due since), w) =
      finish home fuel (.suspended (polling tx period timeout deadline (due + period) w.stamp),
        { w with now := due, chain := w.chain.polled tx 1, stamp := w.stamp + 1 }) := by
  rw [finish_poll hw hdue htimers hnow, hunmined]

/-- The world when so many polls, one each period, have brought nothing. -/
def World.polled (w : World) (tx : TxHash) (period n : Nat) : World :=
  { w with now := w.now + n * period, chain := w.chain.polled tx n, stamp := w.stamp + n }

theorem World.Waits.polled (hw : w.Waits home) : (w.polled tx period n).Waits home :=
  hw.later

theorem finish_polls (hw : w.Waits home) (hdeadline : w.now + n * period < deadline)
    (htimers : ∀ t ∈ w.timers, w.now + n * period < t.1) (hunmined : ∀ k ≤ n, w.chain.outcome? tx k = none) :
    ∃ since', finish home (fuel + n) (.suspended (polling tx period timeout deadline (w.now + period) since), w) =
      finish home fuel (.suspended (polling tx period timeout deadline (w.now + n * period + period) since'),
        w.polled tx period n) := by
  unfold World.polled
  induction n generalizing w since with
  | zero =>
    refine ⟨since, ?_⟩
    rw [Nat.zero_mul]
    rfl
  | succ n ih =>
    rw [Nat.succ_mul] at hdeadline htimers ⊢
    let w' : World := { w with now := w.now + period, chain := w.chain.polled tx 1, stamp := w.stamp + 1 }
    have hdue : w.now + period < deadline := by omega
    have hsoon : ∀ t ∈ w.timers, w.now + period < t.1 := fun t ht => by have := htimers t ht; omega
    have hunmined' : ∀ k ≤ n, w'.chain.outcome? tx k = none := by
      intro k hk
      cases k with
      | zero => rfl
      | succ k => exact hunmined (k + 2) (by omega)
    have hnow : w'.now = w.now + period := rfl
    have hlater : ∀ t ∈ w'.timers, w'.now + n * period < t.1 := fun t ht => by have := htimers t ht; omega
    obtain ⟨since', hrest⟩ := @ih w.stamp w' hw.later (by omega) hlater hunmined'
    refine ⟨since', (finish_unmined hw hdue hsoon (Nat.le_add_right ..) (hunmined 1 (by omega))).trans
      (hrest.trans ?_)⟩
    have hlast : w'.now + n * period = w.now + (n * period + period) := by omega
    have hstamp : w'.stamp + n = w.stamp + (n + 1) := Nat.add_right_comm w.stamp 1 n
    rw [hlast, hstamp]
    rfl

theorem finish_first (hw : w.Waits home) (hperiod : 0 < period) (hdeadline : w.now + k * period < deadline)
    (htimers : ∀ t ∈ w.timers, w.now + k * period < t.1) (hbefore : ∀ j < k, w.chain.outcome? tx j = none)
    (hmined : w.chain.outcome? tx k = some outcome) : ∃ v,
    finish home (fuel + k) (.suspended (polling tx period timeout deadline (w.now + period) since), w) =
      (.done (some outcome), v) ∧ v.now = w.now + k * period ∧ v.chain = w.chain.polled tx k := by
  cases k with
  | zero => cases hmined
  | succ n =>
    have hcomes : w.now + (n + 1) * period = w.now + n * period + period := by rw [Nat.succ_mul, Nat.add_assoc]
    rw [hcomes] at hdeadline htimers ⊢
    have hearlier : w.now + n * period < w.now + n * period + period := Nat.lt_add_of_pos_right hperiod
    obtain ⟨since', hpolls⟩ := finish_polls hw (Nat.lt_trans hearlier hdeadline)
      (fun t ht => Nat.lt_trans hearlier (htimers t ht)) fun j hj => hbefore j (Nat.lt_succ_of_le hj)
    obtain ⟨v, hfinish, hnow, hchain⟩ :=
      finish_mined hw.polled hdeadline htimers (Nat.le_of_lt hearlier) hmined
    refine ⟨v, ?_, hnow, hchain.trans (w.chain.polled_succ tx n).symm⟩
    have hfuel : fuel + (n + 1) = fuel + 1 + n := (Nat.add_right_comm fuel 1 n).symm
    rw [hfuel, hpolls]
    exact hfinish

/-- The deadline ends the waiting. A poll that is due then may go first. -/
theorem finish_late (hw : w.Waits home) (hdue : deadline ≤ due) (htimers : ∀ t ∈ w.timers, deadline < t.1)
    (hnow : w.now ≤ deadline) : ∃ v,
    finish home (fuel + 1) (.suspended (polling tx period timeout deadline due since), w) =
        (.done (w.chain.outcome? tx (due ≤ deadline && w.flip.1).toNat), v) ∧
      v.now = deadline ∧ v.chain = w.chain.polled tx (due ≤ deadline && w.flip.1).toNat := by
  have hown : (polling tx period timeout deadline due since).wait.due? = some deadline :=
    congrArg some (Nat.min_eq_left hdue)
  let u : World := { w with now := deadline }
  have hover : u.isCancelled home ∨ deadline ≤ u.now := .inr (Nat.le_refl deadline)
  obtain ⟨v, hresume, hv⟩ := resume_over tx period timeout due since hover
  rw [finish_alone hw.ready hw.woken hown htimers hnow, hresume, finish_done]
  exact ⟨v, rfl, hv⟩

end CommitReveal.Simulation
