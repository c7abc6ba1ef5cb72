import CommitReveal.Proofs.RevealedOnce
import CommitReveal.Proofs.SeedOrigins

/-! Only matching seeds are published. If the oracle hashes by a function, and names with a hash no seed of
the agent's that does not match, then no such seed is ever stored or sent; and the seed sent is the one
that was stored when the reveal began, whatever is written while the task waits for its nonce. -/
namespace CommitReveal.Agent

open Repository (peek key key_ne)

variable {s : Settings} {f : Seed → Hash} {i : Nat} {h : Hash} {seed : Seed} {t : Trace} {σ τ : System}

def OracleEvent.agrees (agent : Address) (f : Seed → Hash) : OracleEvent → Bool
  | .seedRevealed committer h seed => committer ≠ agent || f seed = h
  | _ => true

/-- What the oracle tells agrees with `f`: the hash of a seed, the agent's seeds in its logs, and those
listed as revealed, unless they are zero. -/
def Event.agrees (s : Settings) (f : Seed → Hash) : Event → Bool
  | .answered _ (.chain (.computeCommitHash seed)) (.ok h) => f seed = h
  | .answered _ (.logs _ _ _) (some logs) =>
    logs.all fun log => (OracleEvent.ofLog? log.topics log.data).all (OracleEvent.agrees s.agent f)
  | .answered _ (.chain (.listUnverified _)) (.ok records) =>
    records.all fun r => !r.revealed || r.seed = .zero 32 || f r.seed = r.hash
  | _ => true

theorem Origin.matches (ho : Origin s i h seed t) (hagrees : ∀ e ∈ t, e.agrees s f)
    (hfound : seedFound i h seed ∈ t → f seed = h) : f seed = h := by
  cases ho with
  | hashed mem => exact of_decide_eq_true (hagrees _ mem)
  | logged mem heard =>
    obtain ⟨log, hlog, hread⟩ := List.mem_filterMap.1 heard
    have hlogs := List.all_eq_true.1 (hagrees _ mem) log hlog
    simpa [(Option.filter_eq_some_iff.1 hread).1, OracleEvent.agrees] using hlogs
  | @listed records mem r listed revealed nonzero seed_eq =>
    have hr := List.mem_filter.1 (List.mem_of_getLast? listed)
    have hrecords := List.all_eq_true.1 (hagrees _ mem) r hr.1
    have hhash : r.hash = h := of_decide_eq_true hr.2
    subst seed_eq
    simpa [revealed, nonzero, hhash] using hrecords
  | found mem => exact hfound mem

structure Matching (f : Seed → Hash) (σ : Shared) : Prop where
  stored {h : Hash} {seed : Seed} : σ.store.get? (key .seed h) = some seed.bytes → f seed = h
  found {i : Nat} {h : Hash} {seed : Seed} : seedFound i h seed ∈ σ.trace → f seed = h

theorem Matching.answered (hm : Matching f σ.shared) (hr : System.Reachable s σ)
    (hagrees : ∀ e ∈ σ.shared.trace, e.agrees s f) {r : Request} {a : r.Answer}
    {next : r.Answer → Activity (Option Routine)} {υ : Shared}
    (task : σ.tasks[i]? = some (.running (.ask r next))) (served : Served r a σ.shared υ) :
    Matching f (υ.note (.answered i r a)) := by
  have hstored {h : Hash} {seed : Seed} (hget : υ.store.get? (key .seed h) = some seed.bytes) :
      f seed = h := by
    have hseed : ∀ k, key .seed h ≠ key .pending k := key_ne (by decide) h
    rcases get?_served (allows_of_reachable hr task) served hseed with hsame | ⟨v, rfl, hv⟩
    · exact hm.stored (hsame ▸ hget)
    · have haccounts : Accountable s i (.store (.call (.set (key .seed h) v))) σ.shared.trace :=
        accountable_of_reachable hr task
      obtain ⟨seed', rfl, horigin⟩ := haccounts h rfl
      obtain rfl : seed = seed' := FixedBytes.ext (Option.some.inj (hget.symm.trans hv))
      exact horigin.matches hagrees hm.found
  refine ⟨hstored, fun {j h seed} hmem => ?_⟩
  rw [Shared.trace_note, served.trace] at hmem
  rcases List.mem_cons.1 hmem with heq | hmem
  · cases heq
    exact hstored (get?_of_shows served ⟨rfl, rfl⟩)
  · exact hm.found hmem

theorem Matching.unanswered {ρ ρ' : Shared} (hm : Matching f ρ) (hstore : ρ'.store = ρ.store)
    (htrace : ∀ i h seed, seedFound i h seed ∈ ρ'.trace → seedFound i h seed ∈ ρ.trace) : Matching f ρ' :=
  ⟨fun hget => hm.stored (hstore ▸ hget), fun hmem => hm.found (htrace _ _ _ hmem)⟩

theorem matching_of_reachable (hr : System.Reachable s σ) (hagrees : ∀ e ∈ σ.shared.trace, e.agrees s f) :
    Matching f σ.shared := by
  obtain ⟨store, hempty, hleads⟩ := hr
  induction hleads with
  | refl =>
    refine ⟨fun hget => ?_, fun hmem => ?_⟩
    · cases (hempty _).symm.trans hget
    · cases hmem
  | @tail ρ τ hleads hstep ih =>
    have hbefore : ∀ e ∈ ρ.shared.trace, e.agrees s f := fun e he => hagrees e (hstep.suffix.subset he)
    have hm := ih hbefore
    cases hstep with
    | answered may task served => exact hm.answered ⟨store, hempty, hleads⟩ hbefore task served
    | turn may task => exact hm
    | finished may task => exact hm
    | began job free => exact hm.unanswered rfl fun _ _ _ hmem => (List.mem_cons.1 hmem).resolve_left nofun
    | crashed => exact hm.unanswered rfl fun _ _ _ hmem => (List.mem_cons.1 hmem).resolve_left nofun

theorem store_of_looks (hleads : System.Leads s σ τ) {looks : Trace}
    (htrace : τ.shared.trace = looks ++ σ.shared.trace) (hlooks : ∀ e ∈ looks, Looked i e) :
    τ.shared.store = σ.shared.store := by
  induction hleads generalizing looks with
  | refl => rfl
  | @tail ρ τ hleads hstep ih =>
    obtain ⟨before, hbefore⟩ := System.suffix_of_leads hleads
    have last {e : Event} (hcons : τ.shared.trace = e :: ρ.shared.trace) :
        Looked i e ∧ ρ.shared.store = σ.shared.store := by
      rw [hcons, ← hbefore, ← List.cons_append] at htrace
      obtain rfl := List.append_cancel_right htrace
      obtain ⟨hlook, hrest⟩ := List.forall_mem_cons.1 hlooks
      exact ⟨hlook, ih hbefore.symm hrest⟩
    cases hstep with
    | began job free =>
      obtain ⟨⟨k, answer, heq⟩, -⟩ := last rfl
      cases heq
    | turn may task => exact ih htrace hlooks
    | @answered j r next a υ may task served =>
      obtain ⟨⟨k, answer, heq⟩, hstore⟩ := last (congrArg _ served.trace)
      cases heq
      have hsame : υ.store = ρ.shared.store := by
        rcases served.store with hsame | ⟨c, heq, hc⟩
        · exact hsame
        · cases heq
          rw [hc, Store.Backend.perform_get]
      exact hsame.trans hstore
    | finished may task => exact ih htrace hlooks
    | crashed =>
      obtain ⟨⟨k, answer, heq⟩, -⟩ := last rfl
      cases heq

/-- The reveal of a hash that a task is about to send began in the state `σ`: the task had taken the hash
from the queue, and it has taken none since. -/
structure RevealBegan (s : Settings) (i : Nat) (h : Hash) (σ τ : System) : Prop where
  reachable : System.Reachable s σ
  leads : System.Leads s σ τ
  taken : ∃ earlier, σ.shared.trace = .answered i .nextReveal (some h) :: earlier
  latest : ∃ later, τ.shared.trace = later ++ σ.shared.trace ∧
    ∀ next, Event.answered i .nextReveal next ∉ later

theorem Begun.stored (hr : System.Reachable s τ) (hb : Begun i h seed τ.shared.trace) :
    ∃ σ, RevealBegan s i h σ τ ∧ peek (Repository.seed h) σ.shared.store = .ok (some seed) := by
  obtain ⟨later, before, htrace, ⟨looks, earlier, rfl, hlooks⟩, hlater⟩ := hb
  -- the seed was found in a step, and the hash was taken in a step before that one
  obtain ⟨ρ, ρ', hρ, hstep, hbefore, hafter, hρ'⟩ := exists_step_of_trace hr htrace
  obtain ⟨_, σ, hstart, htake, -, htaken, hleads⟩ := exists_step_of_trace hρ hbefore
  have hstore : ρ.shared.store = σ.shared.store := store_of_looks hleads (htaken ▸ hbefore) hlooks
  obtain ⟨υ, hserved, -⟩ := hstep.served (hbefore ▸ hafter)
  have hget : ρ.shared.store.get? (key .seed h) = some seed.bytes := by
    rcases hserved with ⟨_, heq, _⟩ | ⟨heq | ⟨_, heq⟩, -⟩
    · cases heq
    · rw [Store.Backend.perform_get] at heq
      exact (Except.ok.inj heq).symm
    · cases heq
  refine ⟨σ, ⟨hstart.leads (.single htake), hleads.trans (.head hstep hρ'), ⟨earlier, htaken⟩, ?_⟩, ?_⟩
  · refine ⟨later ++ seedFound i h seed :: looks, by simp [htrace, htaken], fun next hmem => ?_⟩
    rcases List.mem_append.1 hmem with hmem | hmem
    · exact hlater next hmem
    · rcases List.mem_cons.1 hmem with heq | hmem
      · cases heq
      · obtain ⟨k, answer, heq⟩ := hlooks _ hmem
        cases heq
  · exact Repository.peek_seed (hstore ▸ hget)

/-- As long as the oracle agrees with `f`, every stored seed matches its hash, and so does every seed that
is about to be sent, which is the one that was stored when its reveal began. -/
theorem matching_seeds_sent (f : Seed → Hash) (hr : System.Reachable s σ)
    (hagrees : ∀ e ∈ σ.shared.trace, e.agrees s f) :
    (∀ h, ∃ found, peek (Repository.seed h) σ.shared.store = .ok found ∧ ∀ seed ∈ found, f seed = h) ∧
    ∀ i h seed nonce next,
      σ.tasks[i]? = some (.running (.ask (.chain (.submit (.reveal h seed) nonce)) next)) →
      f seed = h ∧ ∃ σ₀, RevealBegan s i h σ₀ σ ∧
        peek (Repository.seed h) σ₀.shared.store = .ok (some seed) := by
  have hm : Matching f σ.shared := matching_of_reachable hr hagrees
  constructor
  · intro h
    cases hget : σ.shared.store.get? (key .seed h) with
    | none => exact ⟨none, Repository.peek_seed_none hget, nofun⟩
    | some bytes =>
      obtain ⟨seed, rfl, -⟩ := (orderly_of_reachable hr).ledger.seed h bytes hget
      refine ⟨some seed, Repository.peek_seed hget, ?_⟩
      rintro _ ⟨⟩
      exact hm.stored hget
  · intro i h seed nonce next task
    have hb : Begun i h seed σ.shared.trace := accountable_of_reachable hr task
    exact ⟨hm.found hb.found, hb.stored hr⟩

def Task.sending? : Task → Option Chain.Submission
  | .running (.ask (.chain (.submit what _)) _) => some what
  | _ => none

theorem Task.sending?_eq_some {t : Task} {what : Chain.Submission} (ht : t.sending? = some what) :
    ∃ nonce next, t = .running (.ask (.chain (.submit what nonce)) next) := by
  unfold sending? at ht
  split at ht
  · cases ht
    exact ⟨_, _, rfl⟩
  · cases ht

/-- The first hash was queued for a subscription, and the worker is about to send its reveal. -/
def aboutToReveal : System :=
  .opening usual [.begin .worker, .begin .commits, .go confirming 1 29,
    .begin (.scan 0 [.revealTrigger] 0), .go (subscribing 1) 2 16, .go confirming 0 9]

theorem matching_seeds_sent_aboutToReveal :
    System.Reachable usual aboutToReveal ∧
      (∀ e ∈ aboutToReveal.shared.trace, e.agrees usual fun _ => confirming.drawn) ∧
      ∃ seed nonce next,
        aboutToReveal.tasks[0]? =
            some (.running (.ask (.chain (.submit (.reveal (.fill 32 3) seed) nonce)) next)) ∧
          confirming.drawn = .fill 32 3 ∧ ∃ σ, RevealBegan usual 0 (.fill 32 3) σ aboutToReveal ∧
            peek (Repository.seed (.fill 32 3)) σ.shared.store = .ok (some seed) := by
  have hr : System.Reachable usual aboutToReveal := System.reachable_opening _
  have hagrees : ∀ e ∈ aboutToReveal.shared.trace, e.agrees usual fun _ => confirming.drawn :=
    List.all_eq_true.1 (by decide +kernel)
  have hsends : aboutToReveal.tasks[0]?.bind Task.sending? =
      some (.reveal (.fill 32 3) (seedOf usual.agent (.zero 32))) := by decide +kernel
  obtain ⟨t, ht, hreveals⟩ := Option.bind_eq_some_iff.1 hsends
  obtain ⟨nonce, next, rfl⟩ := Task.sending?_eq_some hreveals
  have hsent := matching_seeds_sent (fun _ => confirming.drawn) hr hagrees
  exact ⟨hr, hagrees, _, nonce, next, ht, hsent.2 0 _ _ nonce next ht⟩

end CommitReveal.Agent
