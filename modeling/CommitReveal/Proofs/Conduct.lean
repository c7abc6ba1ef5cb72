import CommitReveal.Proofs.Ledger

/-! The conduct of every task: what it may ask, so that the store stays in agreement with what was
observed, an accepted commit stays owed until it is released, and no hash without a seed is handed on. -/
namespace CommitReveal.Agent

open Repository (Field key Seeded Marked)

variable {s : Settings} {σ τ : Shared} {h : Hash} {i : Nat} {r : Request} {a : r.Answer}

/-- The hash is in the pending set, unless it has been released. -/
def Owed (s : Settings) (σ : Shared) (h : Hash) : Prop :=
  Marked σ.store h ∨ Released s h σ.trace

/-- A hash that some task has been told to reveal, or will be. -/
inductive Named (σ : Shared) (h : Hash) : Prop
  | waiting (mem : h ∈ σ.memory.queue.waiting)
  | deferred (mem : h ∈ σ.memory.deferred)
  | taken {i : Nat} (mem : Event.answered i .nextReveal (some h) ∈ σ.trace)
  | delayed {i n : Nat} (mem : Event.answered i (.spawn (.delayedReveal h)) n ∈ σ.trace)

structure Backed (s : Settings) (σ : Shared) (h : Hash) : Prop where
  owed : Owed s σ h
  seeded : Seeded σ.store h
  drawn : ∃ seed, Drawn s h seed σ.trace

structure Orderly (s : Settings) (σ : Shared) : Prop where
  ledger : Ledger s σ.store σ.trace
  accepted : ∀ h tx, Accepted (.commit h) tx σ.trace → Backed s σ h
  named : ∀ h, Named σ h → Seeded σ.store h

structure Onward (s : Settings) (σ τ : Shared) : Prop where
  trace : σ.trace <:+ τ.trace
  seeded : ∀ h, Seeded σ.store h → Seeded τ.store h
  owed : ∀ h, Owed s σ h → Owed s τ h

/-- Only a delayed reveal needs anything: that there is a seed to reveal. -/
def Ready : Routine → Shared → Prop
  | .delayedReveal h, σ => Seeded σ.store h
  | _, _ => True

def Allows (s : Settings) : Request → Shared → Prop
  | .store (.call (.set k value)), σ => MayWrite s σ.store σ.trace k value
  | .store (.call (.delete k)), σ => ∃ h, k = key .pending h ∧ Released s h σ.trace
  | .memory (.enqueue h), σ => Seeded σ.store h
  | .memory (.defer hashes), σ => ∀ h ∈ hashes, Seeded σ.store h
  | .spawn r, σ => Ready r σ
  | .chain (.submit (.commit h) _), σ => Backed s σ h
  | .notify (.seedMissing _), _ => False
  | _, _ => True

theorem Onward.refl (σ : Shared) : Onward s σ σ :=
  ⟨List.suffix_refl _, fun _ => id, fun _ => id⟩

theorem Onward.trans {υ : Shared} (h : Onward s σ τ) (h' : Onward s τ υ) : Onward s σ υ :=
  ⟨h.trace.trans h'.trace, fun k hk => h'.seeded k (h.seeded k hk),
    fun k hk => h'.owed k (h.owed k hk)⟩

theorem Backed.onward (hb : Backed s σ h) (hon : Onward s σ τ) : Backed s τ h := by
  obtain ⟨seed, hdrawn⟩ := hb.drawn
  exact ⟨hon.owed h hb.owed, hon.seeded h hb.seeded, seed, hdrawn.mono hon.trace⟩

theorem Ready.onward {r : Routine} (hr : Ready r σ) (hon : Onward s σ τ) : Ready r τ := by
  cases r with
  | delayedReveal h => exact hon.seeded h hr
  | _ => trivial

/-- An allowed call keeps the store in agreement, every seed, and every mark not released. -/
theorem served_store (hord : Orderly s σ) (hallows : Allows s r σ) (hserved : Served r a σ τ) :
    Ledger s τ.store σ.trace ∧ (∀ h, Seeded σ.store h → Seeded τ.store h) ∧
      ∀ h, Marked σ.store h → Marked τ.store h ∨ Released s h σ.trace := by
  have same (hstore : τ.store = σ.store) : Ledger s τ.store σ.trace ∧
      (∀ h, Seeded σ.store h → Seeded τ.store h) ∧
      ∀ h, Marked σ.store h → Marked τ.store h ∨ Released s h σ.trace := by
    rw [hstore]
    exact ⟨hord.ledger, fun _ => id, fun _ => .inl⟩
  rcases hserved.store with hsame | ⟨c, rfl, hstore⟩
  · exact same hsame
  · cases c with
    | get k => exact same (hstore.trans (congrArg Prod.snd (σ.store.perform_get k)))
    | scan start => exact same (hstore.trans (σ.store.perform_scan start))
    | set k value =>
      rw [hstore]
      exact ⟨hord.ledger.set hallows, fun _ => seeded_set, fun _ hm => .inl (marked_set hm)⟩
    | delete k =>
      obtain ⟨h, rfl, hreleased⟩ := hallows
      rw [hstore]
      refine ⟨hord.ledger.delete, fun _ => seeded_delete.2, fun k hm => ?_⟩
      by_cases hk : k = h
      · exact .inr (hk ▸ hreleased)
      · exact .inl (marked_delete.2 ⟨hk, hm⟩)

theorem onward_served (hord : Orderly s σ) (hallows : Allows s r σ) (hserved : Served r a σ τ) :
    Onward s σ (τ.note (.answered i r a)) := by
  obtain ⟨-, hseeded, hmarked⟩ := served_store hord hallows hserved
  have htrace : σ.trace <:+ (τ.note (.answered i r a)).trace := by
    rw [Shared.trace_note, hserved.trace]
    exact List.suffix_cons _ _
  refine ⟨htrace, hseeded, fun h howed => ?_⟩
  rcases howed with hm | hreleased
  · exact (hmarked h hm).imp id fun hr => hr.mono htrace
  · exact .inr (hreleased.mono htrace)

theorem mem_dequeue {q q' : RevealQueue} {hash : Hash} (hq : q.dequeue = some (hash, q')) :
    q.waiting = hash :: q'.waiting := by
  rcases q with ⟨capacity, _ | ⟨first, rest⟩, receiver⟩
  · cases hq
  · cases hq
    rfl

theorem waiting_enqueue (q : RevealQueue) (hash : Hash) (hmem : h ∈ (q.enqueue hash).2.waiting) :
    h ∈ q.waiting ∨ h = hash := by
  unfold RevealQueue.enqueue at hmem
  split at hmem
  · exact .inl hmem
  · split at hmem
    · simpa using hmem
    · exact .inl hmem

theorem named_perform (m : Memory) (q : Memory.Request)
    (hmem : h ∈ (Memory.perform q m).2.queue.waiting ∨ h ∈ (Memory.perform q m).2.deferred) :
    h ∈ m.queue.waiting ∨ h ∈ m.deferred ∨ q = .enqueue h ∨ ∃ hashes, q = .defer hashes ∧ h ∈ hashes := by
  cases q with
  | enqueue hash =>
    rcases hmem with hmem | hmem
    · rcases waiting_enqueue m.queue hash hmem with hw | rfl
      · exact .inl hw
      · exact .inr (.inr (.inl rfl))
    · exact .inr (.inl hmem)
  | takeReceiver =>
    have hwaiting : m.queue.takeReceiver.2.waiting = m.queue.waiting := by
      unfold RevealQueue.takeReceiver
      split <;> rfl
    exact hmem.imp (fun hw => hwaiting ▸ hw) .inl
  | dropReceiver =>
    rcases hmem with hmem | hmem
    · cases hmem
    · exact .inr (.inl hmem)
  | defer hashes =>
    rcases hmem with hmem | hmem
    · exact .inl hmem
    · rcases List.mem_append.1 hmem with hd | hd
      · exact .inr (.inl hd)
      · exact .inr (.inr (.inr ⟨hashes, rfl, hd⟩))
  | takeDeferred =>
    rcases hmem with hmem | hmem
    · exact .inl hmem
    · cases hmem
  | queueDepth => exact hmem.imp id .inl
  | takeNonce observed =>
    simp only [Memory.perform] at hmem
    split at hmem <;> exact hmem.imp id .inl
  | releaseNonce nonce =>
    simp only [Memory.perform] at hmem
    split at hmem <;> exact hmem.imp id .inl

/-- The only hashes a served request may name anew have a seed. -/
theorem named_served (hord : Orderly s σ) (hallows : Allows s r σ) (hserved : Served r a σ τ)
    (hnamed : Named (τ.note (.answered i r a)) h) : Seeded σ.store h := by
  have old (hmem : h ∈ σ.memory.queue.waiting ∨ h ∈ σ.memory.deferred) : Seeded σ.store h :=
    hord.named h (hmem.elim .waiting .deferred)
  have inMemory (hmem : h ∈ τ.memory.queue.waiting ∨ h ∈ τ.memory.deferred) : Seeded σ.store h := by
    cases r with
    | memory q =>
      rw [hserved.2] at hmem
      rcases named_perform σ.memory q hmem with hw | hd | rfl | ⟨hashes, rfl, hin⟩
      · exact old (.inl hw)
      · exact old (.inr hd)
      · exact hallows
      · exact hallows h hin
    | nextReveal =>
      rcases hserved with ⟨_, rfl⟩ | ⟨hash, q, hq, _, rfl⟩
      · exact old hmem
      · refine old (hmem.imp (fun hw => ?_) id)
        rw [mem_dequeue hq]
        exact List.mem_cons_of_mem _ hw
    | store q =>
      cases q with
      | call c => rcases hserved with ⟨_, _, rfl⟩ | ⟨_, rfl⟩ <;> exact old hmem
      | clock =>
        obtain rfl : τ = σ := hserved
        exact old hmem
    | _ =>
      obtain rfl : τ = σ := hserved
      exact old hmem
  cases hnamed with
  | waiting mem => exact inMemory (.inl mem)
  | deferred mem => exact inMemory (.inr mem)
  | taken mem =>
    rw [Shared.trace_note, hserved.trace] at mem
    rcases List.mem_cons.1 mem with heq | mem
    · cases heq
      rcases hserved with ⟨hnone, _⟩ | ⟨hash, q, hq, hsome, _⟩
      · cases hnone
      · cases hsome
        exact old (.inl (by rw [mem_dequeue hq]; exact List.mem_cons_self))
    · exact hord.named h (.taken mem)
  | delayed mem =>
    rw [Shared.trace_note, hserved.trace] at mem
    rcases List.mem_cons.1 mem with heq | mem
    · cases heq
      exact hallows
    · exact hord.named h (.delayed mem)

theorem orderly_served (hord : Orderly s σ) (hallows : Allows s r σ) (hserved : Served r a σ τ) :
    Orderly s (τ.note (.answered i r a)) := by
  have honward : Onward s σ (τ.note (.answered i r a)) := onward_served hord hallows hserved
  have htrace : (τ.note (.answered i r a)).trace = .answered i r a :: σ.trace := by
    rw [Shared.trace_note, hserved.trace]
  refine ⟨(served_store hord hallows hserved).1.mono honward.trace, fun h tx haccepted => ?_,
    fun h hnamed => honward.seeded h (named_served hord hallows hserved hnamed)⟩
  obtain ⟨j, nonce, hmem⟩ := haccepted
  rw [htrace] at hmem
  rcases List.mem_cons.1 hmem with heq | hmem
  · cases heq
    exact Backed.onward hallows honward
  · exact (hord.accepted h tx ⟨j, nonce, hmem⟩).onward honward

theorem orderly_event {e : Event} (hord : Orderly s σ) (hmemory : τ.memory = σ.memory ∨
      τ.memory = .empty s.limits.queueCapacity)
    (hstore : τ.store = σ.store) (htrace : τ.trace = e :: σ.trace)
    (he : ∀ i r a, e ≠ .answered i r a) : Orderly s τ ∧ Onward s σ τ := by
  have old {j : Nat} {q : Request} {b : q.Answer} (hmem : Event.answered j q b ∈ τ.trace) :
      Event.answered j q b ∈ σ.trace := by
    rw [htrace] at hmem
    rcases List.mem_cons.1 hmem with heq | hmem
    · exact absurd heq.symm (he j q b)
    · exact hmem
  have hsuffix : σ.trace <:+ τ.trace := htrace ▸ List.suffix_cons _ _
  have honward : Onward s σ τ := by
    refine ⟨hsuffix, fun h hs => hstore ▸ hs, fun h howed => ?_⟩
    exact howed.imp (fun hm => hstore ▸ hm) fun hr => hr.mono hsuffix
  refine ⟨⟨hstore ▸ hord.ledger.mono hsuffix, fun h tx ⟨j, nonce, hmem⟩ => ?_,
    fun h hnamed => honward.seeded h (hord.named h ?_)⟩, honward⟩
  · exact (hord.accepted h tx ⟨j, nonce, old hmem⟩).onward honward
  · cases hnamed with
    | waiting mem =>
      rcases hmemory with hm | hm <;> rw [hm] at mem
      · exact .waiting mem
      · cases mem
    | deferred mem =>
      rcases hmemory with hm | hm <;> rw [hm] at mem
      · exact .deferred mem
      · cases mem
    | taken mem => exact .taken (old mem)
    | delayed mem => exact .delayed (old mem)

def conduct (s : Settings) : Contract s where
  Inv := Orderly s
  Onward := Onward s
  refl := Onward.refl
  trans := Onward.trans
  Allows _ := Allows s
  Ready := Ready
  ready_onward := Ready.onward
  ready_spawned := id
  served hord hallows hserved :=
    ⟨orderly_served hord hallows hserved, onward_served hord hallows hserved⟩
  began hord := orderly_event hord (.inl rfl) rfl rfl fun _ _ _ he => nomatch he
  crashed hord := orderly_event hord (.inr rfl) rfl rfl fun _ _ _ he => nomatch he

end CommitReveal.Agent
