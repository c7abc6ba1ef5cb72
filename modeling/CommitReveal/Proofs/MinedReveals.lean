import CommitReveal.Proofs.Finished

/-! What is known of the reveals that were mined since the agent started. One task receives from the queue
and nobody else sends reveals, so that what is mined changes only by that task's doing; and as long as no
store call fails a final status stays. -/
namespace CommitReveal.Agent

open Program
open Repository (key key_ne Recorded Revises)

variable {s : Settings} {i : Nat} {h : Hash} {t : Trace} {e : Event} {σ τ υ : Shared}

def Event.isCrash : Event → Bool
  | .crashed => true
  | _ => false

/-- What has happened since the last crash. -/
def session (t : Trace) : Trace :=
  t.takeWhile fun e => !e.isCrash

def Event.submission? (i : Nat) : Event → Option (Chain.Submission × Except ChainError TxHash)
  | .answered j (.chain (.submit what _)) a => if j = i then some (what, a) else none
  | _ => none

def lastSubmission? (i : Nat) (t : Trace) : Option (Chain.Submission × Except ChainError TxHash) :=
  t.findSome? (Event.submission? i)

theorem lastSubmission?_cons_some {what : Chain.Submission} {a : Except ChainError TxHash}
    (hlast : lastSubmission? i (e :: t) = some (what, a)) :
    (∃ nonce, e = .answered i (.chain (.submit what nonce)) a) ∨ lastSubmission? i t = some (what, a) := by
  unfold lastSubmission? at *
  rw [List.findSome?_cons] at hlast
  split at hlast
  · rename_i sent he
    unfold Event.submission? at he
    split at he
    · split at he
      · rename_i heq
        subst heq
        cases he
        cases hlast
        exact .inl ⟨_, rfl⟩
      · cases he
    · cases he
  · exact .inr hlast

theorem mem_of_lastSubmission? {what : Chain.Submission} {a : Except ChainError TxHash}
    (hlast : lastSubmission? i t = some (what, a)) :
    ∃ nonce, Event.answered i (.chain (.submit what nonce)) a ∈ t := by
  induction t with
  | nil => cases hlast
  | cons e t ih =>
    rcases lastSubmission?_cons_some hlast with ⟨nonce, rfl⟩ | hold
    · exact ⟨nonce, List.mem_cons_self⟩
    · obtain ⟨nonce, hmem⟩ := ih hold
      exact ⟨nonce, List.mem_cons_of_mem e hmem⟩

/-- The hash whose reveal turns out to be mined: a receipt that tells of success, for the transaction that
the same task has sent last. -/
def minedReveal? (e : Event) (earlier : Trace) : Option Hash :=
  match e with
  | .answered i (.receipt tx _ _) (some ⟨_, true⟩) =>
    match lastSubmission? i earlier with
    | some (.reveal h _, .ok sent) => if sent = tx then some h else none
    | _ => none
  | _ => none

/-- The hashes whose reveals were mined, the last first. -/
def minedReveals : Trace → List Hash
  | [] => []
  | e :: earlier => (minedReveal? e earlier).toList ++ minedReveals earlier

theorem minedReveal?_eq_some (hm : minedReveal? e t = some h) : ∃ i tx poll timeout block seed,
    e = .answered i (.receipt tx poll timeout) (some ⟨block, true⟩) ∧
      lastSubmission? i t = some (.reveal h seed, .ok tx) := by
  unfold minedReveal? at hm
  split at hm
  · split at hm
    · rename_i hlast
      split at hm
      · rename_i heq
        cases hm
        exact ⟨_, _, _, _, _, _, rfl, heq ▸ hlast⟩
      · cases hm
    · cases hm
  · cases hm

theorem minedReveals_cons (hm : minedReveal? e t = none) : minedReveals (e :: t) = minedReveals t := by
  rw [minedReveals, hm]
  rfl

theorem minedReveal?_of_not_receipt
    (hr : ∀ i tx poll timeout a, e ≠ .answered i (.receipt tx poll timeout) a) :
    minedReveal? e t = none := by
  rw [Option.eq_none_iff_forall_ne_some]
  intro h hm
  obtain ⟨i, tx, poll, timeout, block, -, he, -⟩ := minedReveal?_eq_some hm
  exact hr i tx poll timeout _ he

def Receives (i : Nat) (t : Trace) : Prop :=
  Event.answered i (.memory .takeReceiver) true ∈ t

theorem session_cons (he : e.isCrash = false) : session (e :: t) = e :: session t := by
  simp [session, he]

theorem session_append {between : Trace} (hb : ∀ e ∈ between, e.isCrash = false) :
    session (between ++ t) = between ++ session t := by
  induction between with
  | nil => rfl
  | cons e between ih =>
    rw [List.cons_append, session_cons (hb e List.mem_cons_self),
      ih fun e' he' => hb e' (List.mem_cons_of_mem e he'), List.cons_append]

/-- The session so far: nothing is mined twice, and only the one receiver sends reveals. -/
structure Single (t : Trace) (m : Memory) : Prop where
  nodup : (minedReveals t).Nodup
  unique : ∀ i j, Receives i t → Receives j t → i = j
  taken : ∀ i, Receives i t → m.queue.receiver ≠ .free
  sender : ∀ i h seed nonce a,
    Event.answered i (.chain (.submit (.reveal h seed) nonce)) a ∈ t → Receives i t

structure Lasts (σ τ : Shared) : Prop where
  final : ∀ h, Final σ h → Final τ h
  trace : ∃ between, τ.trace = between ++ σ.trace ∧ ∀ e ∈ between, e.isCrash = false

theorem lasts_refl (σ : Shared) : Lasts σ σ :=
  ⟨fun _ => id, [], rfl, fun _ he => nomatch he⟩

theorem Lasts.trans (h : Lasts σ τ) (h' : Lasts τ υ) : Lasts σ υ := by
  obtain ⟨between, htrace, hb⟩ := h.trace
  obtain ⟨between', htrace', hb'⟩ := h'.trace
  refine ⟨fun k hk => h'.final k (h.final k hk), between' ++ between, ?_, fun e he => ?_⟩
  · rw [htrace', htrace, List.append_assoc]
  · rcases List.mem_append.1 he with he | he
    · exact hb' e he
    · exact hb e he

theorem Lasts.session_apart (h : Lasts σ τ) (ha : Apart i σ τ) : ∃ between,
    session τ.trace = between ++ session σ.trace ∧ ∀ e ∈ between, e.task? ≠ some i := by
  obtain ⟨between, htrace, hb⟩ := h.trace
  obtain ⟨others, htrace', hothers⟩ := ha
  obtain rfl : between = others := List.append_cancel_right (htrace.symm.trans htrace')
  exact ⟨between, by rw [htrace, session_append hb], hothers⟩

theorem not_receives (hnone : answersOf i t = []) : ¬Receives i (session t) := by
  intro hi
  have htold : Event.answered i (.memory .takeReceiver) true ∈ t := (List.takeWhile_prefix _).subset hi
  rw [← mem_answersOf, hnone] at htold
  cases htold

theorem receiver_enqueue (q : RevealQueue) (hash : Hash) : (q.enqueue hash).2.receiver = q.receiver := by
  unfold RevealQueue.enqueue
  split
  · rfl
  · split <;> rfl

theorem receiver_served {r : Request} {a : r.Answer} (hserved : Served r a σ τ)
    (htaken : σ.memory.queue.receiver ≠ .free) : τ.memory.queue.receiver ≠ .free := by
  cases r with
  | store q =>
    cases q with
    | call c => rcases hserved with ⟨_, _, rfl⟩ | ⟨_, rfl⟩ <;> exact htaken
    | clock =>
      obtain rfl : τ = σ := hserved
      exact htaken
  | memory q =>
    obtain ⟨-, rfl⟩ := hserved
    cases q with
    | enqueue hash =>
      show (σ.memory.queue.enqueue hash).2.receiver ≠ .free
      rwa [receiver_enqueue]
    | takeReceiver =>
      show σ.memory.queue.takeReceiver.2.receiver ≠ .free
      rwa [RevealQueue.takeReceiver, if_neg htaken]
    | dropReceiver => exact fun heq => nomatch heq
    | takeNonce observed =>
      simp only [Memory.perform]
      split <;> exact htaken
    | releaseNonce nonce =>
      simp only [Memory.perform]
      split <;> exact htaken
    | _ => exact htaken
  | nextReveal =>
    rcases hserved with ⟨-, rfl⟩ | ⟨hash, queue, hq, -, rfl⟩
    · exact htaken
    · have hsame : queue.receiver = σ.memory.queue.receiver := by
        generalize σ.memory.queue = q at hq
        rcases q with ⟨capacity, _ | ⟨first, rest⟩, receiver⟩
        · cases hq
        · cases hq
          rfl
      exact fun heq => htaken (hsame.symm.trans heq)
  | _ =>
    obtain rfl : τ = σ := hserved
    exact htaken

theorem receiver_taken {a : Bool} (hserved : Served (.memory .takeReceiver) a σ τ) (ha : a = true) :
    σ.memory.queue.receiver = .free ∧ τ.memory.queue.receiver ≠ .free := by
  obtain ⟨hanswer, rfl⟩ := hserved
  have htold : a = σ.memory.queue.takeReceiver.1 := hanswer
  by_cases hfree : σ.memory.queue.receiver = .free
  · refine ⟨hfree, ?_⟩
    show σ.memory.queue.takeReceiver.2.receiver ≠ .free
    rw [RevealQueue.takeReceiver, if_pos hfree]
    exact fun heq => nomatch heq
  · rw [RevealQueue.takeReceiver, if_neg hfree, ha] at htold
    cases htold

/-- A record is revised, only the receiver sends reveals, and a receipt is asked for only while it would be
the first. -/
def OnceAllows (i : Nat) : Request → Shared → Prop
  | .store (.call (.set k value)), σ => ∀ h (new : CommitRecord), k = key .record h → value = new.encode →
      ∀ old, Recorded σ.store h old → Revises False False old new
  | .chain (.submit (.reveal _ _) _), σ => Receives i (session σ.trace)
  | .receipt tx _ _, σ => ∀ h seed, lastSubmission? i (session σ.trace) = some (.reveal h seed, .ok tx) →
      h ∉ minedReveals (session σ.trace)
  | .spawn r, _ => r ≠ .revealWorker true
  | _, _ => True

theorem final_served {r : Request} {a : r.Answer} (hord : Orderly s (τ.note e)) (hbase : Allows s r σ)
    (hallows : OnceAllows i r σ) (hserved : Served r a σ τ) (hfinal : Final σ h) : Final (τ.note e) h := by
  obtain ⟨old, hold, hterminal⟩ := hfinal
  rcases get?_served (k := key .record h) hbase hserved (key_ne (by decide) h) with hsame | ⟨v, rfl, hget⟩
  · exact ⟨old, hsame.trans hold, hterminal⟩
  · obtain ⟨new, rfl, -⟩ := hord.ledger.record h v hget
    have hfollows := (hallows h new rfl rfl _ hold).follows old rfl
    refine ⟨new, hget, ?_⟩
    rw [hfollows.eq_of_terminal hterminal]
    exact hterminal

theorem Single.served {r : Request} {a : r.Answer} (hs : Single t σ.memory) (hserved : Served r a σ τ)
    (hsend : ∀ h seed nonce, r = .chain (.submit (.reveal h seed) nonce) → Receives i t)
    (hreceipt : ∀ h, minedReveal? (.answered i r a) t = some h → h ∉ minedReveals t) :
    Single (.answered i r a :: t) τ.memory := by
  have received (k : Nat) (hk : Receives k (.answered i r a :: t)) :
      (k = i ∧ σ.memory.queue.receiver = .free ∧ τ.memory.queue.receiver ≠ .free) ∨ Receives k t := by
    rcases List.mem_cons.1 hk with heq | hk
    · cases heq
      exact .inl ⟨rfl, receiver_taken hserved rfl⟩
    · exact .inr hk
  constructor
  · rw [minedReveals]
    cases hm : minedReveal? (.answered i r a) t with
    | none => exact hs.nodup
    | some h => exact List.nodup_cons.2 ⟨hreceipt h hm, hs.nodup⟩
  · intro k k' hk hk'
    rcases received k hk with ⟨rfl, hfree, -⟩ | hold <;> rcases received k' hk' with ⟨rfl, hfree', -⟩ | hold'
    · rfl
    · exact absurd hfree (hs.taken k' hold')
    · exact absurd hfree' (hs.taken k hold)
    · exact hs.unique k k' hold hold'
  · intro k hk
    rcases received k hk with ⟨-, -, htaken⟩ | hold
    · exact htaken
    · exact receiver_served hserved (hs.taken k hold)
  · intro k h seed nonce answer hmem
    rcases List.mem_cons.1 hmem with heq | hmem
    · cases heq
      exact List.mem_cons_of_mem _ (hsend h seed nonce rfl)
    · exact List.mem_cons_of_mem _ (hs.sender k h seed nonce answer hmem)

theorem Single.began {job : Job} {m : Memory} (hs : Single t m) : Single (.began i job :: t) m := by
  have hmined : minedReveals (.began i job :: t) = minedReveals t := minedReveals_cons rfl
  have hreceives (k : Nat) (hk : Receives k (.began i job :: t)) : Receives k t :=
    (List.mem_cons.1 hk).resolve_left fun heq => nomatch heq
  constructor
  · rw [hmined]
    exact hs.nodup
  · exact fun k k' hk hk' => hs.unique k k' (hreceives k hk) (hreceives k' hk')
  · exact fun k hk => hs.taken k (hreceives k hk)
  · intro k h seed nonce a hmem
    refine List.mem_cons_of_mem _ (hs.sender k h seed nonce a ?_)
    exact (List.mem_cons.1 hmem).resolve_left fun heq => nomatch heq

theorem single_nil (m : Memory) : Single [] m where
  nodup := List.nodup_nil
  unique _ _ hi := nomatch hi
  taken _ hi := nomatch hi
  sender _ _ _ _ _ hmem := nomatch hmem

/-- As long as no store call fails, whatever was mined is closed whenever no task holds the turn. -/
def onceOnly (s : Settings) : Clause (conduct s) where
  Good _ e := e.smooth
  Inv σ := Single (session σ.trace) σ.memory
  Calm σ := ∀ h ∈ minedReveals (session σ.trace), Final σ h
  Onward := Lasts
  refl := lasts_refl
  trans := Lasts.trans
  Allows := OnceAllows
  Ready i r σ := r = .revealWorker true ↔ Receives i (session σ.trace)
  ready_apart {i r σ τ} hready _ hon ha := by
    obtain ⟨between, hsession, hothers⟩ := hon.session_apart ha
    rw [hready, hsession]
    constructor
    · exact fun hmem => List.mem_append_right _ hmem
    · exact fun hmem => (List.mem_append.1 hmem).resolve_left fun hmem => hothers _ hmem rfl
  ready_spawned hallows hnone := iff_of_false hallows (not_receives hnone)
  served {i r a σ τ} _ hs hbase hallows hserved hgood hsince := by
    have hcrash : (Event.answered i r a).isCrash = false := rfl
    have htrace : (τ.note (.answered i r a)).trace = .answered i r a :: σ.trace := congrArg _ hserved.trace
    refine ⟨?_, fun h => final_served hsince.1 hbase hallows hserved, [.answered i r a], htrace, ?_⟩
    · rw [htrace, session_cons hcrash, Shared.memory_note]
      refine hs.served hserved (fun h seed nonce hr => ?_) fun h hm => ?_
      · subst hr
        exact hallows
      · obtain ⟨k, tx, poll, timeout, block, seed, heq, hlast⟩ := minedReveal?_eq_some hm
        cases heq
        exact hallows h seed hlast
    · intro e he
      rw [List.mem_singleton.1 he]
      rfl
  began {i job σ} _ hs _ := by
    have hsession : session (σ.note (.began i job)).trace = .began i job :: session σ.trace :=
      session_cons rfl
    refine ⟨?_, ⟨fun h hfinal => hfinal, [.began i job], rfl, ?_⟩, fun hcalm h hm => ?_⟩
    · rw [hsession]
      exact hs.began
    · intro e he
      rw [List.mem_singleton.1 he]
      rfl
    · rw [hsession, minedReveals_cons rfl] at hm
      exact hcalm h hm
  crashed _ _ hgood := nomatch hgood

end CommitReveal.Agent
