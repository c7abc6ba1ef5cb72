import CommitReveal.Proofs.Liabilities
import CommitReveal.Proofs.Solo

/-! How much may be owed at one time. A commit is held back for what waits in the reveal queue, and for nothing
else: so no number bounds what is owed, unless one bounds what the queue does not show. -/
namespace CommitReveal.Agent

open Program
open Repository (key key_inj)

variable {s : Settings} {d n : Nat} {p q : Activity (Option Routine)} {t : Transcript interface}
  {σ τ υ : Shared} {ρ : System} {holder : Option Nat}

section Alone

def Request.isLone : Request → Bool
  | .spawn _ | .memory .queueDepth => false
  | _ => true

/-- The only task is answered in this way. -/
inductive Told : Transcript interface → Shared → Shared → Prop
  | nil (σ : Shared) : Told [] σ σ
  | cons {r : Request} {a : r.Answer} {t : Transcript interface} {σ τ υ : Shared}
    (served : Served r a σ τ) (rest : Told t (τ.note (.answered 0 r a)) υ) : Told (⟨r, a⟩ :: t) σ υ

theorem told_cons {P : Shared → Prop} {r : Request} {a : r.Answer} (served : Served r a σ τ)
    (rest : ∃ υ, Told t (τ.note (.answered 0 r a)) υ ∧ P υ) : ∃ υ, Told (⟨r, a⟩ :: t) σ υ ∧ P υ := by
  obtain ⟨υ, htold, hυ⟩ := rest
  exact ⟨υ, .cons served htold, hυ⟩

theorem run_step {r : Request} {next : r.Answer → Activity (Option Routine)} {a : r.Answer}
    (hholder : holder = none ∨ holder = some 0) (hspawned : System.spawned s r = [])
    (served : Served r a σ τ)
    (hread : r = .memory .queueDepth →
      (unqueued σ).card + ((underWay s (.alone σ (.ask r next) holder)).erase 0).card ≤ d) :
    Overlooks s d (.alone σ (.ask r next) holder)
      (.alone (τ.note (.answered 0 r a)) (next a) (System.holderAfter 0 (next a))) := by
  have hstep : System.Step s (.alone σ (.ask r next) holder)
      ⟨τ.note (.answered 0 r a), [.running (next a)] ++ System.spawned s r, System.holderAfter 0 (next a)⟩ :=
    .answered hholder rfl served
  rw [hspawned] at hstep
  refine ⟨hstep, fun i depth _ htrace => ?_⟩
  have hnow : .answered 0 r a :: τ.trace = .answered i (.memory .queueDepth) depth :: σ.trace := htrace
  cases (List.cons.inj hnow).1
  exact hread rfl

theorem run_told (hreach : p.Reaches t q) (htold : Told t σ τ) (hlone : t.all (·.request.isLone))
    (hholder : holder = none ∨ holder = some 0) : ∃ holder', (holder' = none ∨ holder' = some 0) ∧
      Run s d (.alone σ p holder) (.alone τ q holder') := by
  induction hreach generalizing σ holder with
  | here p =>
    cases htold
    exact ⟨holder, hholder, .refl⟩
  | @asked r next a t q rest ih =>
    cases htold with
    | cons served hrest =>
      obtain ⟨hr, hlone⟩ := Bool.and_eq_true_iff.1 hlone
      have hspawned : System.spawned s r = [] := by
        cases r with
        | spawn routine => cases hr
        | _ => rfl
      have hread : r ≠ .memory .queueDepth := by
        rintro rfl
        cases hr
      obtain ⟨holder', hor, hrun⟩ := ih hrest hlone ((System.holderAfter_cases 0 (next a)).imp_left And.left)
      exact ⟨holder', hor, .head (run_step hholder hspawned served fun heq => absurd heq hread) hrun⟩

end Alone

section Ticks

def limited (l : Limits) : Settings :=
  { usual with limits := l }

def numbered (k : Nat) : Hash :=
  .ofNat 32 k

theorem numbered_inj {k m : Nat} (hk : k < UInt64.size) (hm : m < UInt64.size)
    (h : numbered k = numbered m) : k = m := by
  have hfits : UInt64.size ≤ Nat.pow 256 32 := by decide
  have hnat := congrArg FixedBytes.toNat h
  unfold numbered at hnat
  rwa [FixedBytes.toNat_ofNat, FixedBytes.toNat_ofNat, Nat.mod_eq_of_lt (by omega),
    Nat.mod_eq_of_lt (by omega)] at hnat

def issued (n : Nat) : List Hash :=
  ((List.range n).map numbered).reverse

theorem issued_succ (n : Nat) : issued (n + 1) = numbered n :: issued n := by
  simp [issued, List.range_succ]

theorem mem_issued {h : Hash} : h ∈ issued n ↔ ∃ k < n, numbered k = h := by
  simp [issued]

theorem nodup_issued (hn : n ≤ UInt64.size) : (issued n).Nodup := by
  refine List.nodup_reverse.2 (List.nodup_range.map_on fun k hk m hm heq => ?_)
  exact numbered_inj ((List.mem_range.1 hk).trans_le hn) ((List.mem_range.1 hm).trans_le hn) heq

/-- So many commits were taken in, each after another, and no reveal was ever asked for. -/
structure Backlog (n : Nat) (σ : Shared) : Prop where
  waiting : σ.memory.queue.waiting = []
  nonce : σ.memory.nonces.next.toNat = n
  commits : commits σ.trace = issued n
  draws : draws σ.trace = issued n
  marked : ∀ k < n, Repository.Marked σ.store (numbered k)
  fresh : ∀ k < UInt64.size, n ≤ k → σ.store.get? (key .record (numbered k)) = none

theorem Backlog.card_liabilities (h : Backlog n σ) (hn : n ≤ UInt64.size) : (liabilities σ).card = n := by
  have hall : liabilities σ = (issued n).toFinset := by
    unfold liabilities
    rw [h.commits, Finset.filter_eq_self]
    intro g hg
    obtain ⟨k, hk, rfl⟩ := mem_issued.1 (List.mem_toFinset.1 hg)
    exact h.marked k hk
  have hlength : (issued n).length = n := by simp [issued]
  rw [hall, List.toFinset_card_of_nodup (nodup_issued hn), hlength]

theorem Backlog.distinctDraws (h : Backlog n σ) (hn : n ≤ UInt64.size) : DistinctDraws σ.trace := by
  unfold DistinctDraws
  rw [h.draws]
  exact nodup_issued hn

theorem Backlog.note (h : Backlog n σ) {e : Event} (hcommit : committed? e = none)
    (hdraw : drawnHash? e = none) : Backlog n (σ.note e) where
  waiting := h.waiting
  nonce := h.nonce
  commits := (List.filterMap_cons_none hcommit).trans h.commits
  draws := (List.filterMap_cons_none hdraw).trans h.draws
  marked := h.marked
  fresh := h.fresh

def onTick (s : Settings) (next : Ticker) : Activity (Option Routine) :=
  (commitTick s).bind fun _ => .done (some (.commitTimer (some next)))

theorem told_wait (l : Limits) (ticker : Option Ticker) (h : Backlog n σ) : ∃ t next τ,
    ((Routine.commitTimer ticker).turn (limited l)).Reaches t (onTick (limited l) next) ∧ Told t σ τ ∧
      t.all (·.request.isLone) ∧ Backlog n τ := by
  have wait (ticker : Ticker) {σ : Shared} (h : Backlog n σ) : ∃ t next τ,
      ((Routine.commitTimer (some ticker)).turn (limited l)).Reaches t (onTick (limited l) next) ∧
        Told t σ τ ∧ t.all (·.request.isLone) ∧ Backlog n τ := by
    refine ⟨[⟨.pauseUntil ticker.due, .due⟩, ⟨.clock, (0 : Nat)⟩], ticker.next 0, _, .asked (.asked (.here _)),
      .cons rfl (.cons rfl (.nil _)), rfl, ?_⟩
    exact (h.note (e := .answered 0 (.pauseUntil ticker.due) .due) rfl rfl).note rfl rfl
  cases ticker with
  | some ticker => exact wait ticker h
  | none =>
    have hnow : Backlog n (σ.note (.answered 0 .clock (0 : Nat))) := h.note rfl rfl
    obtain ⟨t, next, τ, hreach, htold, hlone, hτ⟩ := wait ⟨15000, 0 + 15000⟩ hnow
    exact ⟨⟨.clock, (0 : Nat)⟩ :: t, next, τ, .asked hreach, .cons rfl htold, hlone, hτ⟩

def zeroSeed : Seed :=
  seedOf usual.agent (.zero 32)

def recordAt (st : Status) : CommitRecord :=
  ⟨st, none, 0⟩

def issuing (n : Nat) (nonce : Word) : Transcript interface :=
  [⟨.entropy, .zero 32⟩,
    ⟨.chain (.computeCommitHash zeroSeed), .ok (numbered n)⟩,
    ⟨.store (.call (.set (key .seed (numbered n)) zeroSeed.bytes)), .ok ()⟩,
    ⟨.store (.call (.get (key .record (numbered n)))), .ok none⟩,
    ⟨.store .clock, (0 : Int64)⟩,
    ⟨.store (.call (.set (key .record (numbered n)) (recordAt .created).encode)), .ok ()⟩,
    ⟨.store (.call (.get (key .record (numbered n)))), .ok (some (recordAt .created).encode)⟩,
    ⟨.store (.call (.set (key .pending (numbered n)) [1])), .ok ()⟩,
    ⟨.chain (.transactionCount usual.agent), .error (.rpc "down")⟩,
    ⟨.notify (.nonceUnreadable (.rpc "down")), ()⟩,
    ⟨.memory (.takeNonce none), .ok nonce⟩,
    ⟨.chain (.submit (.commit (numbered n)) nonce), .ok (.zero 32)⟩,
    ⟨.store (.call (.set (key .tx (numbered n)) (FixedBytes.zero 32).bytes)), .ok ()⟩,
    ⟨.store (.call (.get (key .record (numbered n)))), .ok (some (recordAt .created).encode)⟩,
    ⟨.store .clock, (0 : Int64)⟩,
    ⟨.store (.call (.set (key .record (numbered n)) (recordAt .committed).encode)), .ok ()⟩,
    ⟨.notify (.committed (numbered n) (.zero 32)), ()⟩,
    ⟨.receipt (.zero 32) 2000 30000, none⟩,
    ⟨.notify (.commitUnconfirmed (numbered n)), ()⟩,
    ⟨.store (.call (.get (key .record (numbered n)))), .ok (some (recordAt .committed).encode)⟩,
    ⟨.store .clock, (0 : Int64)⟩,
    ⟨.store (.call (.set (key .record (numbered n)) (recordAt .pendingReveal).encode)), .ok ()⟩]

theorem reaches_onTick {l : Limits} (hthreshold : 0 < l.backpressure) (next : Ticker) (n : Nat) (nonce : Word) :
    (onTick (limited l) next).Reaches (⟨.memory .queueDepth, (0 : Nat)⟩ :: issuing n nonce)
      (.done (some (.commitTimer (some next)))) := by
  refine .asked ?_
  have hshort : (0 : Nat) < (limited l).limits.backpressure := hthreshold
  dsimp only [done_bind]
  rw [if_pos hshort]
  -- up to the mark, then to the node's answer, then to the end of the wait for a receipt
  refine .asked (.asked (.asked (.asked (.asked (.asked (.asked (.asked ?_)))))))
  refine .asked (.asked (.asked (.asked ?_)))
  refine .asked (.asked (.asked (.asked (.asked (.asked (.asked ?_))))))
  exact .asked (.asked (.asked (.here _)))

theorem served_set (k value : Bytes) (σ : Shared) : Served (.store (.call (.set k value))) (.ok ()) σ
    { σ with store := (σ.store.perform (.set k value)).2 } :=
  .inr ⟨.inl rfl, rfl⟩

theorem served_get {k : Bytes} {found : Option Bytes} (hfound : σ.store.get? k = found) :
    Served (.store (.call (.get k))) (.ok found) σ σ := by
  refine .inr ⟨.inl ?_, ?_⟩
  · rw [Store.Backend.perform_get, hfound]
  · rw [Store.Backend.perform_get]

theorem told_issuing (h : Backlog n σ) (hn : n + 1 < UInt64.size) :
    ∃ nonce τ, Told (issuing n nonce) σ τ ∧ Backlog (n + 1) τ := by
  obtain ⟨nonces, htake⟩ := NonceCache.take_none (c := σ.memory.nonces) (by rw [h.nonce]; exact hn)
  have htaken (υ : Shared) (hυ : υ.memory = σ.memory) : Served (.memory (.takeNonce none))
      (.ok σ.memory.nonces.next) υ { υ with memory := { σ.memory with nonces } } := by
    simp [Served, Memory.perform, hυ, htake]
  have hunknown := h.fresh n (by omega) (Nat.le_refl n)
  refine ⟨σ.memory.nonces.next, ?_⟩
  refine told_cons rfl (told_cons rfl (told_cons (served_set ..) (told_cons (served_get ?_) ?_)))
  · exact (Repository.get?_set_field (by decide) ..).trans hunknown
  refine told_cons rfl ?_
  refine told_cons (served_set ..) (told_cons (served_get ?_) (told_cons (served_set ..) (told_cons rfl ?_)))
  · exact Repository.get?_set_self ..
  refine told_cons rfl (told_cons (htaken _ rfl) (told_cons rfl ?_))
  refine told_cons (served_set ..) (told_cons (served_get ?_) (told_cons rfl (told_cons (served_set ..) ?_)))
  · refine (Repository.get?_set_field (by decide) ..).trans ?_
    exact (Repository.get?_set_field (by decide) ..).trans (Repository.get?_set_self ..)
  refine told_cons rfl (told_cons rfl (told_cons rfl (told_cons (served_get ?_) (told_cons rfl ?_))))
  · exact Repository.get?_set_self ..
  refine told_cons (served_set ..) ⟨_, .nil _, h.waiting, ?_, ?_, ?_, fun k hk => ?_, fun k hsize hk => ?_⟩
  · have hnext := (assignNonce_eq_ok (NonceCache.take_eq_ok htake)).2.2.2
    rwa [h.nonce] at hnext
  · rw [issued_succ, ← h.commits]
    rfl
  · rw [issued_succ, ← h.draws]
    rfl
  · simp only [Repository.Marked, Shared.store_note, Repository.get?_set_key, reduceCtorEq, false_and, if_false,
      true_and]
    split
    · rfl
    · rename_i hne
      refine h.marked k (Nat.lt_of_le_of_ne (Nat.le_of_lt_succ hk) ?_)
      rintro rfl
      exact hne rfl
  · have hne : numbered k ≠ numbered n := by
      intro heq
      have := numbered_inj hsize (by omega) heq
      omega
    simp only [Shared.store_note, Repository.get?_set_key, reduceCtorEq, if_false, hne, and_false]
    exact h.fresh k hsize (by omega)

theorem overlooks_of_same {ρ ρ' : System} (hstep : System.Step s ρ ρ')
    (hsame : ρ'.shared.trace = ρ.shared.trace) : Overlooks s d ρ ρ' :=
  ⟨hstep, fun _ _ _ hread => absurd (hsame.symm.trans hread).symm (List.cons_ne_self _ _)⟩

theorem underWay_alone (holder : Option Nat) : ((underWay s (.alone σ p holder)).erase 0).card = 0 := by
  rw [Finset.card_eq_zero, Finset.eq_empty_iff_forall_notMem]
  intro i hi
  obtain ⟨hne, hi⟩ := Finset.mem_erase.1 hi
  exact hne (Nat.lt_one_iff.1 (Finset.mem_range.1 (Finset.mem_filter.1 hi).1))

/-- One tick of the only task: it overlooks all that is owed, and one more is owed then. -/
theorem run_tick {l : Limits} (hthreshold : 0 < l.backpressure) (ticker : Option Ticker) (h : Backlog n σ)
    (hn : n + 1 < UInt64.size) (hd : n ≤ d) : ∃ next τ, Backlog (n + 1) τ ∧
      Run (limited l) d ⟨σ, [.ready ((Routine.commitTimer ticker).turn (limited l))], none⟩
        ⟨τ, [.ready ((Routine.commitTimer (some next)).turn (limited l))], none⟩ := by
  obtain ⟨t, next, τ, hreach, htold, hlone, hτ⟩ := told_wait l ticker h
  let turn := (Routine.commitTimer ticker).turn (limited l)
  have hturn : System.Step (limited l) ⟨σ, [.ready turn], none⟩
      (.alone σ turn (System.holderAfter 0 turn)) :=
    System.Step.turn (i := 0) (.inl rfl) rfl
  obtain ⟨holder, hor, hwait⟩ := run_told (s := limited l) (d := d) hreach htold hlone
    ((System.holderAfter_cases 0 turn).imp_left And.left)
  have hnoted : Backlog n (τ.note (.answered 0 (.memory .queueDepth) (0 : Nat))) := hτ.note rfl rfl
  obtain ⟨nonce, υ, hissued, hυ⟩ := told_issuing hnoted hn
  have htick := reaches_onTick hthreshold next n nonce
  generalize onTick (limited l) next = tick at htick hwait
  cases htick with
  | @asked _ rest _ _ _ hrest =>
    have hdepth : Served (.memory .queueDepth) (0 : Nat) τ τ := by
      refine ⟨?_, rfl⟩
      show 0 = τ.memory.queue.waiting.length
      rw [hτ.waiting]
      rfl
    have hsight : (unqueued τ).card + ((underWay (limited l)
        (.alone τ (.ask (.memory .queueDepth) rest) holder)).erase 0).card ≤ d := by
      have howed := Finset.card_le_card (Finset.filter_subset (· ∉ τ.memory.queue.waiting) (liabilities τ))
      rw [hτ.card_liabilities (by omega)] at howed
      rw [underWay_alone]
      exact howed.trans hd
    have hread := run_step hor rfl hdepth fun _ => hsight
    obtain ⟨holder', hor', hissue⟩ := run_told (s := limited l) (d := d) hrest hissued rfl
      ((System.holderAfter_cases 0 (rest (0 : Nat))).imp_left And.left)
    have hend := @System.Step.finished (limited l) (.alone υ _ holder') 0 (some (.commitTimer (some next)))
      hor' rfl
    refine ⟨next, υ, hυ, .head (overlooks_of_same hturn rfl) (hwait.trans (.head hread (hissue.tail ?_)))⟩
    exact overlooks_of_same hend rfl

theorem exists_backlog {l : Limits} (hthreshold : 0 < l.backpressure) (hn : n < UInt64.size)
    (hd : n ≤ d + 1) : ∃ ticker σ, Backlog n σ ∧
      Run (limited l) d (.start (limited l) (.memory .empty))
        ⟨σ, [.ready ((Routine.commitTimer ticker).turn (limited l))], none⟩ := by
  induction n with
  | zero =>
    have hbegan : System.Step (limited l) (.start (limited l) (.memory .empty))
        ⟨(System.start (limited l) (.memory .empty)).shared.note (.began 0 .commits),
          [.ready ((Routine.commitTimer none).turn (limited l))], none⟩ := .began .commits rfl
    refine ⟨none, _, ⟨rfl, rfl, rfl, rfl, fun k hk => absurd hk (Nat.not_lt_zero k), fun _ _ _ => rfl⟩,
      .single ⟨hbegan, fun i depth _ hread => ?_⟩⟩
    cases (List.cons.inj hread).1
  | succ n ih =>
    obtain ⟨ticker, σ, hσ, hrun⟩ := ih (by omega) (by omega)
    obtain ⟨next, τ, hτ, htick⟩ := run_tick (d := d) hthreshold ticker hσ hn (by omega)
    exact ⟨some next, τ, hτ, hrun.trans htick⟩

/-- If whoever passes the check overlooks at most `d`, then at no time is more owed than the threshold and
`d`. -/
theorem owed_within_sight {store : Store.Backend} (hempty : ∀ key, store.get? key = none)
    (hrun : Run s d (.start s store) ρ) (hdistinct : DistinctDraws ρ.shared.trace) :
    (liabilities ρ.shared).card ≤ s.limits.backpressure + d :=
  (Nat.le_add_right _ _).trans (burden_of_run hempty hrun hdistinct)

theorem owed_within_sight_twoTicks : ∃ ρ, (∀ key, (Store.Backend.memory .empty).get? key = none) ∧
    Run (limited ⟨1, 1, 400⟩) 1 (.start (limited ⟨1, 1, 400⟩) (.memory .empty)) ρ ∧
    DistinctDraws ρ.shared.trace ∧ (liabilities ρ.shared).card = 2 ∧ (liabilities ρ.shared).card ≤ 1 + 1 := by
  obtain ⟨ticker, σ, hσ, hrun⟩ := exists_backlog (l := ⟨1, 1, 400⟩) (n := 2) (d := 1) (by decide) (by decide)
    (Nat.le_refl 2)
  have hempty : ∀ key, (Store.Backend.memory .empty).get? key = none := fun _ => rfl
  have hdistinct := hσ.distinctDraws (by decide)
  exact ⟨_, hempty, hrun, hdistinct, hσ.card_liabilities (by decide), owed_within_sight hempty hrun hdistinct⟩

/-- No bound that depends on the threshold and the capacity holds, for as many ticks as there are nonces. -/
theorem owed_unbounded : ¬∃ bound : Nat → Nat → Nat,
    (∃ threshold capacity, 0 < threshold ∧ bound threshold capacity < UInt64.size - 1) ∧
      ∀ s ρ, System.Reachable s ρ → DistinctDraws ρ.shared.trace →
        (liabilities ρ.shared).card ≤ bound s.limits.backpressure s.limits.queueCapacity := by
  rintro ⟨bound, ⟨threshold, capacity, hpos, hsmall⟩, hbound⟩
  let l : Limits := ⟨capacity, threshold, 400⟩
  obtain ⟨ticker, σ, hσ, hrun⟩ := exists_backlog (l := l) (n := bound threshold capacity + 1) hpos (by omega)
    (Nat.le_refl _)
  have hempty : ∀ key, (Store.Backend.memory .empty).get? key = none := fun _ => rfl
  have howed := hbound (limited l) _ ⟨_, hempty, leads_of_run hrun⟩ (hσ.distinctDraws (by omega))
  rw [hσ.card_liabilities (by omega)] at howed
  exact Nat.not_succ_le_self _ howed

end Ticks

end CommitReveal.Agent
