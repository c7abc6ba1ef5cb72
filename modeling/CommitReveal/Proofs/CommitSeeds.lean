import CommitReveal.Proofs.MatchingSeeds

/-! The seed is durable before its hash is public. Whoever sends a hash has drawn its seed and stored it, and
what stands in for that seed by then was public, or drawn with the same hash. -/
namespace CommitReveal.Agent

open Repository (peek key key_ne Seeded)

variable {s : Settings} {f : Seed → Hash} {σ : System} {i : Nat} {r : Request} {a : r.Answer} {k v : Bytes}
  {h : Hash}

/-- What a task has seen to since the oracle gave it the hash of its fresh seed. -/
structure Secured (s : Settings) (i : Nat) (h : Hash) (fresh : Seed) (later : Trace) (σ : Shared) :
    Prop where
  unfailed : ∀ c cause, Event.answered i (.store (.call c)) (.error cause) ∉ later
  /-- The fresh seed is the last that the task has drawn. -/
  undrawn : ∀ entropy, Event.answered i .entropy entropy ∉ later
  /-- A seed is stored: the fresh one, or one that was written since. -/
  seed : ∃ stored, peek (Repository.seed h) σ.store = .ok (some stored) ∧ (stored = fresh ∨
    Written (key .seed h) stored.bytes later ∧ Sourced s h stored σ.trace ∧
      (DistinctDraws σ.trace → Published s h stored σ.trace))
  record : ∃ r, peek (Repository.record h) σ.store = .ok (some r)
  /-- The hash was marked as pending, or a final status was read, which refuses the mark. -/
  marked : Event.answered i (.store (.call (.set (key .pending h) [1]))) (.ok ()) ∈ later ∨
    ∃ bytes r, Event.answered i (.store (.call (.get (key .record h)))) (.ok (some bytes)) ∈ later ∧
      Repository.recordOfBytes bytes = .ok r ∧ r.status.isTerminal

variable {fresh : Seed} {later earlier : Trace}

theorem kept_of_mem (hr : System.Reachable s σ) {e : Event} (htrace : σ.shared.trace = later ++ e :: earlier)
    (hmem : (⟨r, a⟩ : Exchange interface) ∈ answersOf i later) (hshows : Shows k v r a)
    (hk : ∀ h, k ≠ key .pending h) : KeptOrWritten k v later σ.shared.store := by
  obtain ⟨after, before, rfl⟩ := List.append_of_mem (mem_answersOf.1 hmem)
  rw [List.append_assoc, List.cons_append] at htrace
  refine (kept_since hr htrace hshows hk).imp id ?_
  rintro ⟨v', hw, hv'⟩
  exact ⟨v', hw.mono (List.subset_append_left _ _), hv'⟩

/-- When draws are distinct, what stands in for the fresh seed was public. -/
theorem seed_of_kept (hord : Orderly s σ.shared) (hdrawn : Drawn s h fresh σ.shared.trace)
    (hkept : KeptOrWritten (key .seed h) fresh.bytes later σ.shared.store) :
    ∃ stored, peek (Repository.seed h) σ.shared.store = .ok (some stored) ∧ (stored = fresh ∨
      Written (key .seed h) stored.bytes later ∧ Sourced s h stored σ.shared.trace ∧
        (DistinctDraws σ.shared.trace → Published s h stored σ.shared.trace)) := by
  rcases hkept with hget | ⟨v, hw, hget⟩
  · exact ⟨fresh, Repository.peek_seed hget, .inl rfl⟩
  · obtain ⟨stored, rfl, hsourced⟩ := hord.ledger.seed h v hget
    refine ⟨stored, Repository.peek_seed hget, ?_⟩
    by_cases heq : stored = fresh
    · exact .inl heq
    · refine .inr ⟨hw, hsourced, fun hdistinct => hsourced.resolve_left fun hother => ?_⟩
      exact heq (hother.unique hdistinct hdrawn)

theorem record_of_kept {bytes : Bytes} (hord : Orderly s σ.shared)
    (hkept : KeptOrWritten (key .record h) bytes later σ.shared.store) :
    ∃ r, peek (Repository.record h) σ.shared.store = .ok (some r) := by
  obtain ⟨v, hget⟩ := hkept.exists_get?
  obtain ⟨r, rfl, -⟩ := hord.ledger.record h v hget
  exact ⟨r, Repository.peek_record hget⟩

theorem secured (hr : System.Reachable s σ) {e : Event} (htrace : σ.shared.trace = later ++ e :: earlier)
    (hdrawn : Drawn s h fresh σ.shared.trace) (hstored : Stored h fresh (answersOf i later))
    (hmarked : MarkTried h (answersOf i later)) : Secured s i h fresh later σ.shared where
  unfailed c cause hmem := by
    have hfailed := (hstored.untroubled _ (mem_answersOf.2 hmem)).1
    cases hfailed
  undrawn entropy hmem := (hstored.untroubled _ (mem_answersOf.2 hmem)).2 rfl
  seed := by
    apply seed_of_kept (orderly_of_reachable hr) hdrawn
    exact kept_of_mem hr htrace hstored.seed ⟨rfl, rfl⟩ (key_ne (by decide) h)
  record := by
    have hord := orderly_of_reachable hr
    rcases hstored.record with ⟨bytes, hmem⟩ | ⟨value, hmem⟩
    · exact record_of_kept hord (kept_of_mem hr htrace hmem ⟨rfl, rfl⟩ (key_ne (by decide) h))
    · exact record_of_kept hord (kept_of_mem hr htrace hmem ⟨rfl, rfl⟩ (key_ne (by decide) h))
  marked := by
    rcases hmarked with hmem | ⟨bytes, r, hmem, hread, hfinal⟩
    · exact .inl (mem_answersOf.1 hmem)
    · exact .inr ⟨bytes, r, mem_answersOf.1 hmem, hread, hfinal⟩

/-- Whoever is about to send a hash has drawn its seed just before, and seen to the seed, the record and
the mark since. And a seed stays, whatever comes. -/
theorem seed_stored_before_commit (hr : System.Reachable s σ) {nonce : Word}
    {next : Except ChainError TxHash → Activity (Option Routine)}
    (task : σ.tasks[i]? = some (.running (.ask (.chain (.submit (.commit h) nonce)) next))) :
    (∃ entropy later earlier,
      σ.shared.trace =
        later ++ .answered i (.chain (.computeCommitHash (seedOf s.agent entropy))) (.ok h) :: earlier ∧
      (answersOf i earlier).getLast? = some ⟨.entropy, entropy⟩ ∧
      Secured s i h (seedOf s.agent entropy) later σ.shared) ∧
    ∀ τ, System.Leads s σ τ → ∃ stored, peek (Repository.seed h) τ.shared.store = .ok (some stored) := by
  -- the task's own transcript says what was done, and where it parts the trace parts
  have hprepared : Prepared s h (answersOf i σ.shared.trace) := prepared_of_reachable hr task
  generalize hanswers : answersOf i σ.shared.trace = answers at hprepared
  obtain @⟨before, told, entropy, hstored, hmarked⟩ := hprepared
  rw [List.append_cons] at hanswers
  obtain ⟨later, earlier, htrace, rfl, hbefore⟩ := parted_of_answersOf hanswers
  have hentropy : Event.answered i .entropy entropy ∈ earlier := by
    rw [← mem_answersOf, hbefore]
    exact List.mem_append_right _ (List.mem_singleton_self _)
  have hdrawn : Drawn s h (seedOf s.agent entropy) σ.shared.trace := by
    rw [htrace]
    exact ⟨i, entropy, rfl, by simp [hentropy], by simp⟩
  have hsecured := secured hr htrace hdrawn hstored hmarked
  refine ⟨⟨entropy, later, earlier, htrace, by rw [hbefore, List.getLast?_concat], hsecured⟩, ?_⟩
  intro τ hleads
  have hkept := kept_of_mem hr htrace hstored.seed ⟨rfl, rfl⟩ (key_ne (by decide) h)
  have hbefore : Seeded σ.shared.store h := Option.isSome_iff_exists.2 hkept.exists_get?
  have hseeded : Seeded τ.shared.store h := (onward_of_leads hr hleads).seeded h hbefore
  obtain ⟨stored, hpeek, -⟩ := exists_peek_seed (orderly_of_reachable (hr.leads hleads)) hseeded
  exact ⟨stored, hpeek⟩

theorem seed_stored_before_commit_firstCommit :
    ∃ σ : System, System.Reachable usual σ ∧
      (∃ next, σ.tasks[0]? = some (.running (.ask (.chain (.submit (.commit (.fill 32 3)) 0)) next))) ∧
      (∃ entropy later, Secured usual 0 (.fill 32 3) (seedOf usual.agent entropy) later σ.shared) ∧
      ∀ τ, System.Leads usual σ τ →
        ∃ stored, peek (Repository.seed (.fill 32 3)) τ.shared.store = .ok (some stored) := by
  obtain ⟨holder, -, hr⟩ := reachable_firstCommit (.ok (.fill 32 4)) 14
  have task : ∃ next, (System.alone (firstCommit (.ok (.fill 32 4)) 14).1
      (firstCommit (.ok (.fill 32 4)) 14).2 holder).tasks[0]? =
      some (.running (.ask (.chain (.submit (.commit (.fill 32 3)) 0)) next)) := ⟨_, rfl⟩
  obtain ⟨next, htask⟩ := task
  obtain ⟨⟨entropy, later, -, -, -, hsecured⟩, hstays⟩ := seed_stored_before_commit hr htask
  exact ⟨_, hr, ⟨next, htask⟩, ⟨entropy, later, hsecured⟩, hstays⟩

/-- The random bytes that a task has drawn last. -/
def lastDrawn? (i : Nat) (t : Trace) : Option Hash :=
  t.findSome? fun
    | .answered j .entropy entropy => if j = i then some entropy else none
    | _ => none

def Event.mayPublish : Event → Bool
  | .answered _ (.logs _ _ _) (some logs) => logs.any fun log =>
    (OracleEvent.ofLog? log.topics log.data).any fun
      | .seedRevealed _ _ _ => true
      | _ => false
  | .answered _ (.chain (.listUnverified _)) _ => true
  | _ => false

theorem Publishes.mayPublish {seed : Seed} {e : Event} (he : Publishes s h seed e) : e.mayPublish := by
  cases he with
  | logged mem event => exact List.any_eq_true.2 ⟨_, mem, by rw [event]; rfl⟩
  | listed _ _ _ => rfl

theorem not_published {t : Trace} {seed : Seed} (hnone : t.any Event.mayPublish = false) :
    ¬Published s h seed t := by
  rintro ⟨e, hmem, he⟩
  rw [List.any_eq_false] at hnone
  exact hnone e hmem he.mayPublish

def drawing (entropy : Hash) : World :=
  { confirming with entropy }

/-- The oracle gives a second seed the hash of one whose reveal waits for its receipt. The receipt comes
after the second seed was stored and before the hash is sent once more, and with it the first seed. -/
def drawnTwice : System :=
  .opening usual [.begin .worker, .begin .commits, .go (drawing (.fill 32 1)) 1 29,
    .begin (.scan 0 [.revealTrigger] 0), .go (subscribing 1) 2 16, .go confirming 0 11,
    .go (drawing (.fill 32 2)) 1 9, .go confirming 0 16, .go (drawing (.fill 32 2)) 1 2]

/-- Though the oracle hashes by a function, and no seed is public, the seed stored when a hash is sent may be
another than the one drawn for it. -/
theorem sent_seed_may_be_older : ¬∀ (s : Settings) (f : Seed → Hash) (σ : System) (i : Nat) (h : Hash)
    (nonce : Word) (next : Except ChainError TxHash → Activity (Option Routine)) (entropy : Hash)
    (stored : Seed), System.Reachable s σ → (∀ e ∈ σ.shared.trace, e.agrees s f) →
    σ.tasks[i]? = some (.running (.ask (.chain (.submit (.commit h) nonce)) next)) →
    lastDrawn? i σ.shared.trace = some entropy →
    peek (Repository.seed h) σ.shared.store = .ok (some stored) →
    stored = seedOf s.agent entropy ∨ Published s h stored σ.shared.trace := by
  intro hclaim
  have hagrees : ∀ e ∈ drawnTwice.shared.trace, e.agrees usual fun _ => confirming.drawn :=
    List.all_eq_true.1 (by decide +kernel)
  have hsends : drawnTwice.tasks[1]?.bind Task.sending? = some (.commit (.fill 32 3)) := by
    decide +kernel
  obtain ⟨t, ht, hsending⟩ := Option.bind_eq_some_iff.1 hsends
  obtain ⟨nonce, next, rfl⟩ := Task.sending?_eq_some hsending
  have hlast : lastDrawn? 1 drawnTwice.shared.trace = some (.fill 32 2) := by decide +kernel
  have hstored : peek (Repository.seed (.fill 32 3)) drawnTwice.shared.store =
      .ok (some (seedOf usual.agent (.fill 32 1))) := by decide +kernel
  have hunpublished : drawnTwice.shared.trace.any Event.mayPublish = false := by decide +kernel
  have hne : seedOf usual.agent (.fill 32 1) ≠ seedOf usual.agent (.fill 32 2) := by decide +kernel
  rcases hclaim usual _ drawnTwice 1 _ nonce next _ _ (System.reachable_opening _) hagrees ht hlast hstored
    with heq | hpublished
  · exact hne heq
  · exact not_published hunpublished hpublished

end CommitReveal.Agent
