import CommitReveal.Proofs.Interleaving

/-! What a trace shows about a hash: how its seed became known to the agent, whether its commit was
accepted, and what releases the agent from revealing it. All of it stays so as the trace grows. -/
namespace CommitReveal.Agent

variable {s : Settings} {h : Hash} {t t' : Trace}

/-- The node has taken a transaction in, under this hash. -/
def Accepted (what : Chain.Submission) (tx : TxHash) (t : Trace) : Prop :=
  ∃ i nonce, Event.answered i (.chain (.submit what nonce)) (.ok tx) ∈ t

/-- The seed was made from random bytes, and the oracle's hash of it is `h`. -/
def Drawn (s : Settings) (h : Hash) (seed : Seed) (t : Trace) : Prop :=
  ∃ i entropy, seed = seedOf s.agent entropy ∧ Event.answered i .entropy entropy ∈ t ∧
    Event.answered i (.chain (.computeCommitHash seed)) (.ok h) ∈ t

def drawnHash? : Event → Option Hash
  | .answered _ (.chain (.computeCommitHash _)) (.ok h) => some h
  | _ => none

def draws (t : Trace) : List Hash :=
  t.filterMap drawnHash?

/-- No two draws have come to the same hash. -/
def DistinctDraws (t : Trace) : Prop :=
  (draws t).Nodup

/-- Whether an event makes the seed of a hash public. -/
inductive Publishes (s : Settings) (h : Hash) (seed : Seed) : Event → Prop
  | logged {i : Nat} {window : ScanWindow} {initial limit : Duration} {logs : List EventLog}
    {log : EventLog} (mem : log ∈ logs)
    (event : OracleEvent.ofLog? log.topics log.data = some (.seedRevealed s.agent h seed)) :
    Publishes s h seed (.answered i (.logs window initial limit) (some logs))
  | listed {i : Nat} {records : List OracleRecord} {r : OracleRecord}
    (listed : listed? records h = some r) (revealed : r.revealed) (seed_eq : seed = r.seed) :
    Publishes s h seed (.answered i (.chain (.listUnverified s.agent)) (.ok records))

def Published (s : Settings) (h : Hash) (seed : Seed) (t : Trace) : Prop :=
  ∃ e ∈ t, Publishes s h seed e

/-- Where the agent may have a seed from. -/
def Sourced (s : Settings) (h : Hash) (seed : Seed) (t : Trace) : Prop :=
  Drawn s h seed t ∨ Published s h seed t

/-- Whether an event, after all that came earlier, ends the duty to reveal a hash. -/
inductive Releases (s : Settings) (h : Hash) : (earlier : Trace) → Event → Prop
  /-- A reveal of the hash was mined. -/
  | revealMined {earlier : Trace} {i : Nat} {seed : Seed} {tx : TxHash} {poll timeout : Nat}
    {block : Option Word} (accepted : Accepted (.reveal h seed) tx earlier) :
    Releases s h earlier (.answered i (.receipt tx poll timeout) (some ⟨block, true⟩))
  /-- The oracle logged the agent's seed. -/
  | seedLogged {earlier : Trace} {i : Nat} {window : ScanWindow} {initial limit : Duration}
    {logs : List EventLog} {log : EventLog} {seed : Seed} (mem : log ∈ logs)
    (event : OracleEvent.ofLog? log.topics log.data = some (.seedRevealed s.agent h seed)) :
    Releases s h earlier (.answered i (.logs window initial limit) (some logs))
  | listedRevealed {earlier : Trace} {i : Nat} {records : List OracleRecord} {r : OracleRecord}
    (listed : listed? records h = some r) (revealed : r.revealed) :
    Releases s h earlier (.answered i (.chain (.listUnverified s.agent)) (.ok records))
  /-- Listed as unrevealed, and too old at the head that the same task read next. -/
  | listedExpired {earlier between : Trace} {i : Nat} {records : List OracleRecord}
    {r : OracleRecord} {head : Word} (listed : listed? records h = some r)
    (unrevealed : r.revealed = false) (apart : ∀ e ∈ between, e.task? ≠ some i)
    (expired : Word.saturatingAdd r.commitBlock s.limits.maxUnverified ≤ head) :
    Releases s h (between ++ .answered i (.chain (.listUnverified s.agent)) (.ok records) :: earlier)
      (.answered i (.chain .blockNumber) (.ok head))
  | commitRefused {earlier : Trace} {i : Nat} {nonce : Word} {cause : ChainError} :
    Releases s h earlier (.answered i (.chain (.submit (.commit h) nonce)) (.error cause))
  | commitReverted {earlier : Trace} {i : Nat} {tx : TxHash} {poll timeout : Nat}
    {block : Option Word} (accepted : Accepted (.commit h) tx earlier) :
    Releases s h earlier (.answered i (.receipt tx poll timeout) (some ⟨block, false⟩))

/-- The duty to reveal a hash has ended. -/
def Released (s : Settings) (h : Hash) (t : Trace) : Prop :=
  ∃ later e earlier, t = later ++ e :: earlier ∧ Releases s h earlier e

theorem Released.now {e : Event} (he : Releases s h t e) : Released s h (e :: t) :=
  ⟨[], e, t, rfl, he⟩

theorem Released.mono (hr : Released s h t) (ht : t <:+ t') : Released s h t' := by
  obtain ⟨later, e, earlier, rfl, he⟩ := hr
  obtain ⟨latest, rfl⟩ := ht
  exact ⟨latest ++ later, e, earlier, (List.append_assoc ..).symm, he⟩

def Event.mayRelease : Event → Bool
  | .answered _ (.receipt ..) _ | .answered _ (.logs ..) _ => true
  | .answered _ (.chain (.listUnverified _)) _ | .answered _ (.chain .blockNumber) _ => true
  | .answered _ (.chain (.submit _ _)) (.error _) => true
  | _ => false

theorem Releases.mayRelease {e : Event} (he : Releases s h t e) : e.mayRelease := by
  cases he <;> rfl

theorem not_released (hnone : t.any Event.mayRelease = false) : ¬Released s h t := by
  rintro ⟨later, e, earlier, rfl, he⟩
  rw [List.any_eq_false] at hnone
  exact hnone e (by simp) he.mayRelease

theorem Accepted.mono {what : Chain.Submission} {tx : TxHash} (ha : Accepted what tx t)
    (ht : t <:+ t') : Accepted what tx t' := by
  obtain ⟨i, nonce, hmem⟩ := ha
  exact ⟨i, nonce, ht.subset hmem⟩

theorem Drawn.mono {seed : Seed} (hd : Drawn s h seed t) (ht : t <:+ t') : Drawn s h seed t' := by
  obtain ⟨i, entropy, hseed, hentropy, hhash⟩ := hd
  exact ⟨i, entropy, hseed, ht.subset hentropy, ht.subset hhash⟩

theorem Published.mono {seed : Seed} (hp : Published s h seed t) (ht : t <:+ t') :
    Published s h seed t' := by
  obtain ⟨e, hmem, he⟩ := hp
  exact ⟨e, ht.subset hmem, he⟩

theorem Sourced.mono {seed : Seed} (hs : Sourced s h seed t) (ht : t <:+ t') :
    Sourced s h seed t' :=
  hs.imp (·.mono ht) (·.mono ht)

theorem Published.released {seed : Seed} (hp : Published s h seed t) : Released s h t := by
  obtain ⟨e, hmem, he⟩ := hp
  obtain ⟨later, earlier, rfl⟩ := List.append_of_mem hmem
  refine ⟨later, e, earlier, rfl, ?_⟩
  cases he with
  | logged mem event => exact .seedLogged mem event
  | listed listed revealed _ => exact .listedRevealed listed revealed

theorem draws_suffix (ht : t <:+ t') : draws t <:+ draws t' := by
  obtain ⟨later, rfl⟩ := ht
  exact ⟨draws later, (List.filterMap_append ..).symm⟩

theorem DistinctDraws.earlier (hd : DistinctDraws t') (ht : t <:+ t') : DistinctDraws t :=
  hd.sublist (draws_suffix ht).sublist

theorem eq_of_drawnHash?_eq {e e' : Event} (hdistinct : DistinctDraws t) (he : e ∈ t) (he' : e' ∈ t)
    (hash : drawnHash? e = some h) (hash' : drawnHash? e' = some h) : e = e' := by
  unfold DistinctDraws draws at hdistinct
  induction t with
  | nil => cases he
  | cons first t ih =>
    have hfirst : drawnHash? first = some h → h ∉ t.filterMap drawnHash? := by
      intro hf
      rw [List.filterMap_cons_some hf] at hdistinct
      exact (List.nodup_cons.1 hdistinct).1
    have hrest : (t.filterMap drawnHash?).Nodup := by
      refine hdistinct.sublist (List.Sublist.filterMap _ ?_)
      exact List.sublist_cons_self first t
    rcases List.mem_cons.1 he with rfl | ht <;> rcases List.mem_cons.1 he' with rfl | ht'
    · rfl
    · exact absurd (List.mem_filterMap.2 ⟨e', ht', hash'⟩) (hfirst hash)
    · exact absurd (List.mem_filterMap.2 ⟨e, ht, hash⟩) (hfirst hash')
    · exact ih hrest ht ht'

theorem Drawn.unique {seed seed' : Seed} (hdistinct : DistinctDraws t) (hd : Drawn s h seed t)
    (hd' : Drawn s h seed' t) : seed = seed' := by
  obtain ⟨i, _, -, -, hmem⟩ := hd
  obtain ⟨j, _, -, -, hmem'⟩ := hd'
  have heq := eq_of_drawnHash?_eq hdistinct hmem hmem' rfl rfl
  injection heq with _ hrequest
  injection hrequest with hcall
  injection hcall

end CommitReveal.Agent
