import CommitReveal.Proofs.ReconcilePass
import CommitReveal.Proofs.Replay
import CommitReveal.Proofs.ToReveal
import CommitReveal.Proofs.Transcript
import Mathlib.Algebra.Order.Group.Multiset
import Mathlib.Tactic.Abel

/-! Logs dispatched in one mode or another while nothing else goes on. The hashes that are queued, those put off and
those that tasks still leave make up one multiset all along, so it is there in full once every grace delay has passed.
The mode of a log is a matter of when. -/
namespace CommitReveal.Agent

open Program

def readings : Trace → Nat
  | [] => 0
  | .answered _ (.store .clock) _ :: earlier => readings earlier + 1
  | _ :: earlier => readings earlier

/-- A store call is carried out, the wall clock shows a given time at each reading, nobody is stopped, and nothing is
begun from outside. -/
def Event.Undisturbed (times : Nat → Int64) (earlier : Trace) : Event → Prop
  | .began _ _ | .crashed => False
  | .answered _ (.store (.call _)) answer => ∃ x, answer = .ok x
  | .answered _ (.store .clock) time => time = times (readings earlier)
  | .answered _ (.pauseUntil _) wake => wake = .due
  | .answered _ _ _ => True

def Undisturbed (times : Nat → Int64) : Trace → Prop
  | [] => True
  | e :: earlier => e.Undisturbed times earlier ∧ Undisturbed times earlier

def Memory.toReveal (m : Memory) : Multiset Hash :=
  m.queue.waiting + m.deferred

def Shared.now (σ : Shared) : Clocked :=
  ⟨σ.store, readings σ.trace⟩

namespace System

def delivering (s : Settings) (store : Store.Backend) (memory : Memory) (xs : List Delivery) : System :=
  ⟨⟨store, memory, []⟩, [.ready (deliverAll s.agent xs)], none⟩

/-- All logs have been dispatched. Nothing else goes on but the grace delays. -/
structure AllDispatched (s : Settings) (times : Nat → Int64) (store : Store.Backend) (memory : Memory)
    (xs : List Delivery) (ρ : System) : Prop where
  leads : Leads s (delivering s store memory xs) ρ
  undisturbed : Undisturbed times ρ.shared.trace
  finished : ρ.tasks[0]? = some .ended

/-- Every grace delay has passed, and its hash has been asked for. -/
def Elapsed (ρ : System) : Prop :=
  ∀ t ∈ ρ.tasks, t = .ended

end System

variable {s : Settings} {times : Nat → Int64} {α : Type} {Q : α → Prop} {d c : Clocked} {K M N : Multiset Hash}
  {r : Request} {a : r.Answer} {i : Nat} {σ τ : Shared}

def Request.Aloof : Request → Prop
  | .store _ | .spawn _ => False
  | _ => True

def Request.handedOver : Request → Multiset Hash
  | .spawn (.delayedReveal h) => {h}
  | _ => 0

theorem Request.Aloof.spawned (hr : r.Aloof) : System.spawned s r = [] := by
  cases r with
  | spawn => exact hr.elim
  | _ => rfl

theorem Request.Aloof.handedOver (hr : r.Aloof) : r.handedOver = 0 := by
  cases r with
  | spawn => exact hr.elim
  | _ => rfl

theorem aloof_requestReveal (h : Hash) : (requestReveal h).Only Request.Aloof := by
  refine ⟨trivial, fun answer => ?_⟩
  cases answer with
  | queued => trivial
  | full | closed => exact ⟨trivial, fun _ => ⟨trivial, fun _ => trivial⟩⟩

theorem aloof_delayedReveal (h : Hash) : ((Routine.delayedReveal h).turn s).Only Request.Aloof := by
  refine ⟨trivial, fun _ => ⟨trivial, fun wake => ?_⟩⟩
  cases wake with
  | due => exact (aloof_requestReveal h).bind fun _ => trivial
  | cancelled => trivial

theorem exists_answer {next : r.Answer → Activity α} (h : Leaves times Q (.ask r next) d K c) (σ : Shared) (i : Nat) :
    ∃ a τ, Served r a σ τ ∧ Event.Undisturbed times σ.trace (.answered i r a) := by
  cases h with
  | @store q _ _ _ _ _ =>
    cases q with
    | call call => exact ⟨_, _, .inr ⟨.inl rfl, rfl⟩, _, rfl⟩
    | clock => exact ⟨_, σ, rfl, rfl⟩
  | enqueue | defer => exact ⟨_, _, ⟨rfl, rfl⟩, trivial⟩
  | spawn | clock => exact ⟨(0 : Nat), σ, rfl, trivial⟩
  | notify | sleep => exact ⟨(), σ, rfl, trivial⟩
  | pause => exact ⟨Wake.due, σ, rfl, rfl⟩

theorem served_repository {q : Repository.Request} {a : q.Answer} (hserved : Served (.store q) a σ τ)
    (hcalm : Event.Undisturbed times σ.trace (.answered i (.store q) a)) :
    a = (σ.now.answer times q).1 ∧ (τ.note (.answered i (.store q) a)).now = (σ.now.answer times q).2 ∧
      τ.memory = σ.memory := by
  cases q with
  | call call =>
    obtain ⟨x, rfl⟩ := hcalm
    rcases hserved with ⟨_, hfailed, -⟩ | ⟨hdone | ⟨_, hfailed⟩, rfl⟩
    · cases hfailed
    · exact ⟨hdone, rfl, rfl⟩
    · cases hfailed
  | clock =>
    obtain rfl : τ = σ := hserved
    exact ⟨hcalm, rfl, rfl⟩

theorem toReveal_offered (m : Memory) (hashes : List Hash) : (m.offered hashes).toReveal = m.toReveal + hashes := by
  have hsplit : (hashes : Multiset Hash) = hashes.take (vacancy m.queue) + hashes.drop (vacancy m.queue) := by
    rw [Multiset.coe_add, List.take_append_drop]
  simp only [Memory.toReveal, Memory.offered, ← Multiset.coe_add]
  rw [hsplit]
  abel

theorem toReveal_defer (m : Memory) (hashes : List Hash) :
    (Memory.perform (.defer hashes) m).2.toReveal = m.toReveal + hashes := by
  show (m.queue.waiting : Multiset Hash) + (m.deferred ++ hashes : List Hash) = _
  rw [← Multiset.coe_add, ← add_assoc]
  rfl

theorem Leaves.answered {next : r.Answer → Activity α} (h : Leaves times Q (.ask r next) d K c)
    (hd : d = σ.now ∨ r.Aloof) (hserved : Served r a σ τ)
    (hcalm : Event.Undisturbed times σ.trace (.answered i r a)) :
    ∃ K' d', Leaves times Q (next a) d' K' c ∧ τ.memory.toReveal + (r.handedOver + K') = σ.memory.toReveal + K ∧
      (d = σ.now → d' = (τ.note (.answered i r a)).now) ∧
      (r.Aloof → d' = d ∧ (τ.note (.answered i r a)).now = σ.now) := by
  have hnothing (K : Multiset Hash) : σ.memory.toReveal + (0 + K) = σ.memory.toReveal + K := by
    rw [zero_add]
  cases h with
  | @store q _ _ _ _ rest =>
    obtain ⟨hanswer, hnow, hmemory⟩ := served_repository hserved hcalm
    obtain rfl : d = σ.now := hd.resolve_right id
    rw [← hanswer, ← hnow] at rest
    exact ⟨_, _, rest, by rw [hmemory]; exact hnothing _, fun _ => rfl, fun hr => hr.elim⟩
  | @enqueue h _ _ _ K queued full closed =>
    obtain ⟨rfl, rfl⟩ := hserved
    rcases σ.memory.perform_enqueue h with ⟨-, hanswer, hmemory⟩ | hqueued
    · rw [hmemory]
      refine ⟨h ::ₘ K, d, ?_, hnothing _, id, fun _ => ⟨rfl, rfl⟩⟩
      generalize (Memory.perform (.enqueue h) σ.memory).1 = answer at hanswer
      cases answer with
      | queued => exact absurd rfl hanswer
      | full => exact full
      | closed => exact closed
    · rw [hqueued]
      refine ⟨K, d, queued, ?_, id, fun _ => ⟨rfl, rfl⟩⟩
      show (σ.memory.offered [h]).toReveal + (0 + K) = _
      rw [toReveal_offered, zero_add, add_assoc]
      rfl
  | @defer hashes _ _ _ K rest =>
    obtain ⟨-, rfl⟩ := hserved
    refine ⟨K, d, rest, ?_, id, fun _ => ⟨rfl, rfl⟩⟩
    show (Memory.perform (.defer hashes) σ.memory).2.toReveal + (0 + K) = _
    rw [toReveal_defer, zero_add, add_assoc]
  | spawn rest =>
    obtain rfl : τ = σ := hserved
    exact ⟨_, d, rest a, rfl, id, fun hr => hr.elim⟩
  | notify rest | sleep rest =>
    obtain rfl : τ = σ := hserved
    exact ⟨K, d, rest, hnothing K, id, fun _ => ⟨rfl, rfl⟩⟩
  | clock rest =>
    obtain rfl : τ = σ := hserved
    exact ⟨K, d, rest a, hnothing K, id, fun _ => ⟨rfl, rfl⟩⟩
  | pause rest =>
    obtain rfl : τ = σ := hserved
    obtain rfl : a = .due := hcalm
    exact ⟨K, d, rest, hnothing K, id, fun _ => ⟨rfl, rfl⟩⟩

/-- What a task still leaves. -/
inductive Task.Owes (times : Nat → Int64) : Task → Clocked → Multiset Hash → Clocked → Prop
  | ready {p : Activity (Option Routine)} {d c : Clocked} {K : Multiset Hash}
    (leaves : Leaves times (· = none) p d K c) : Task.Owes times (.ready p) d K c
  | running {p : Activity (Option Routine)} {d c : Clocked} {K : Multiset Hash}
    (leaves : Leaves times (· = none) p d K c) : Task.Owes times (.running p) d K c
  | ended {d : Clocked} : Task.Owes times .ended d 0 d

theorem Task.Owes.ends {next : Option Routine} (h : (Task.running (.done next)).Owes times d K c) :
    next = none ∧ Task.ended.Owes times d K c := by
  cases h with
  | running leaves =>
    cases leaves with
    | done kind => exact ⟨kind, .ended⟩

def Task.Aloof : Task → Prop
  | .ready p | .running p => p.Only Request.Aloof
  | .ended => True

/-- The tasks of single hashes, and all that they still leave. -/
inductive Delayed (times : Nat → Int64) (c : Clocked) : List Task → Multiset Hash → Prop
  | nil : Delayed times c [] 0
  | cons {t : Task} {ts : List Task} {K M : Multiset Hash} (owes : t.Owes times c K c) (aloof : t.Aloof)
    (rest : Delayed times c ts M) : Delayed times c (t :: ts) (K + M)

variable {t : Task} {ts us : List Task}

theorem Delayed.append (hts : Delayed times c ts M) (hus : Delayed times c us N) :
    Delayed times c (ts ++ us) (M + N) := by
  induction hts with
  | nil =>
    rw [zero_add]
    exact hus
  | cons owes aloof rest ih =>
    rw [add_assoc]
    exact .cons owes aloof ih

theorem Delayed.get (h : Delayed times c ts M) (ht : ts[i]? = some t) :
    ∃ K M', t.Owes times c K c ∧ t.Aloof ∧ M = K + M' ∧
      ∀ t' K', t'.Owes times c K' c → t'.Aloof → Delayed times c (ts.set i t') (K' + M') := by
  induction h generalizing i with
  | nil => cases ht
  | @cons t₀ ts K₀ M₀ owes aloof rest ih =>
    cases i with
    | zero =>
      obtain rfl := Option.some.inj ht
      exact ⟨K₀, M₀, owes, aloof, rfl, fun t' K' howes haloof => .cons howes haloof rest⟩
    | succ i =>
      obtain ⟨K, M', hgot, hgotAloof, rfl, hset⟩ := ih ht
      refine ⟨K, K₀ + M', hgot, hgotAloof, add_left_comm _ _ _, fun t' K' howes haloof => ?_⟩
      rw [add_left_comm]
      exact .cons owes aloof (hset t' K' howes haloof)

theorem Delayed.ended (h : Delayed times c ts M) (hended : ∀ t ∈ ts, t = .ended) : M = 0 := by
  induction h with
  | nil => rfl
  | cons owes aloof rest ih =>
    obtain rfl := hended _ List.mem_cons_self
    cases owes
    rw [ih fun t ht => hended t (List.mem_cons_of_mem _ ht), zero_add]

theorem delayed_spawned {next : r.Answer → Activity α} (h : Leaves times Q (.ask r next) d K c) :
    Delayed times c (System.spawned s r) r.handedOver := by
  cases h with
  | @spawn h =>
    have hone : Delayed times c [.ready ((Routine.delayedReveal h).turn s)] ({h} + 0) :=
      .cons (.ready (leaves_delayedReveal h c)) (aloof_delayedReveal h) .nil
    rwa [add_zero] at hone
  | _ => exact .nil

namespace System

/-- The first task dispatches logs and the others are for single hashes. What is to be revealed and what is still left
is the same all along. -/
def Balanced (times : Nat → Int64) (c : Clocked) (M : Multiset Hash) (σ : System) : Prop :=
  ∃ t ts K K', σ.tasks = t :: ts ∧ t.Owes times σ.shared.now K c ∧ Delayed times c ts K' ∧
    σ.shared.memory.toReveal + (K + K') = M

variable {σ τ ρ : System} {t' : Task} {holder : Option Nat}

theorem Balanced.set (h : Balanced times c M σ) (ht : σ.tasks[i]? = some t)
    (hgoes : ∀ d K, t.Owes times d K c → t'.Owes times d K c ∧ (t.Aloof → t'.Aloof)) :
    Balanced times c M ⟨σ.shared, σ.tasks.set i t', holder⟩ := by
  obtain ⟨t₀, ts, K, K', htasks, hfirst, hrest, hsum⟩ := h
  rw [htasks] at ht ⊢
  cases i with
  | zero =>
    obtain rfl := Option.some.inj ht
    exact ⟨t', ts, K, K', rfl, (hgoes _ _ hfirst).1, hrest, hsum⟩
  | succ i =>
    obtain ⟨K₁, M', hgot, haloof, rfl, hset⟩ := hrest.get ht
    obtain ⟨howes, hstays⟩ := hgoes _ _ hgot
    exact ⟨t₀, _, K, _, rfl, hfirst, hset t' K₁ howes (hstays haloof), hsum⟩

theorem Balanced.answered {next : r.Answer → Activity (Option Routine)} {τ : Shared} (h : Balanced times c M σ)
    (ht : σ.tasks[i]? = some (.running (.ask r next))) (hserved : Served r a σ.shared τ)
    (hcalm : Event.Undisturbed times σ.shared.trace (.answered i r a)) :
    Balanced times c M ⟨τ.note (.answered i r a), σ.tasks.set i (.running (next a)) ++ spawned s r, holder⟩ := by
  obtain ⟨t₀, ts, K, K', htasks, hfirst, hrest, hsum⟩ := h
  rw [htasks] at ht ⊢
  -- Only the task that dispatches logs changes the store or starts another.
  cases i with
  | zero =>
    obtain rfl := Option.some.inj ht
    cases hfirst with
    | running hleaves =>
      obtain ⟨K₁, d₁, hnext, hpassed, hnow, -⟩ := hleaves.answered (.inl rfl) hserved hcalm
      obtain rfl := hnow rfl
      refine ⟨_, ts ++ spawned s r, K₁, _, rfl, .running hnext, hrest.append (delayed_spawned hleaves), ?_⟩
      calc τ.memory.toReveal + (K₁ + (K' + r.handedOver))
          = τ.memory.toReveal + (r.handedOver + K₁) + K' := by abel
        _ = M := by rw [hpassed, add_assoc, hsum]
  | succ i =>
    obtain ⟨K₀, M', hgot, haloof, rfl, hset⟩ := hrest.get ht
    cases hgot with
    | running hleaves =>
      obtain ⟨K₁, d₁, hnext, hpassed, -, hkept⟩ := hleaves.answered (.inr haloof.1) hserved hcalm
      obtain ⟨rfl, hnow⟩ := hkept haloof.1
      rw [haloof.1.spawned, List.append_nil]
      rw [haloof.1.handedOver, zero_add] at hpassed
      refine ⟨t₀, _, K, _, rfl, ?_, hset _ K₁ (.running hnext) (haloof.2 a), ?_⟩
      · rwa [← hnow] at hfirst
      calc τ.memory.toReveal + (K + (K₁ + M'))
          = τ.memory.toReveal + K₁ + (K + M') := by abel
        _ = σ.shared.memory.toReveal + (K + (K₀ + M')) := by rw [hpassed]; abel
        _ = M := hsum

theorem Balanced.step (h : Balanced times c M σ) (hstep : Step s σ τ) (hcalm : Undisturbed times τ.shared.trace) :
    Balanced times c M τ := by
  cases hstep with
  | began => exact hcalm.1.elim
  | turn may task =>
    refine h.set task fun d K howes => ⟨?_, id⟩
    cases howes with
    | ready hleaves => exact .running hleaves
  | answered may task served =>
    have hnew : Event.Undisturbed times σ.shared.trace _ := served.trace ▸ hcalm.1
    exact h.answered task served hnew
  | finished may task =>
    refine h.set task fun d K howes => ?_
    obtain ⟨rfl, hended⟩ := howes.ends
    exact ⟨hended, fun _ => trivial⟩
  | crashed => exact hcalm.1.elim

theorem undisturbed_before (hstep : Step s σ τ) (hcalm : Undisturbed times τ.shared.trace) :
    Undisturbed times σ.shared.trace := by
  cases hstep with
  | began => exact hcalm.1.elim
  | turn => exact hcalm
  | answered may task served => exact served.trace ▸ hcalm.2
  | finished => exact hcalm
  | crashed => exact hcalm.1.elim

theorem Balanced.leads (h : Balanced times c M σ) (hleads : Leads s σ ρ) (hcalm : Undisturbed times ρ.shared.trace) :
    Balanced times c M ρ := by
  induction hleads with
  | refl => exact h
  | tail _ hstep ih => exact (ih (undisturbed_before hstep hcalm)).step hstep hcalm

theorem Balanced.store_eq (h : Balanced times c M σ) (hover : σ.tasks[0]? = some .ended) :
    σ.shared.store = c.store := by
  obtain ⟨t, ts, K, K', htasks, hfirst, -⟩ := h
  rw [htasks] at hover
  obtain rfl := Option.some.inj hover
  cases hfirst
  rfl

theorem Balanced.toReveal_eq (h : Balanced times c M σ) (hended : σ.Elapsed) : σ.shared.memory.toReveal = M := by
  obtain ⟨t, ts, K, K', htasks, hfirst, hrest, hsum⟩ := h
  unfold Elapsed at hended
  rw [htasks] at hended
  obtain ⟨rfl, hts⟩ := List.forall_mem_cons.1 hended
  cases hfirst
  rwa [hrest.ended hts, add_zero, add_zero] at hsum

theorem Balanced.running {p : Activity (Option Routine)} (h : Balanced times c M σ)
    (ht : σ.tasks[i]? = some (.running p)) :
    ∃ d K, Leaves times (· = none) p d K c ∧ (i ≠ 0 → p.Only Request.Aloof) := by
  obtain ⟨t, ts, K, K', htasks, hfirst, hrest, -⟩ := h
  rw [htasks] at ht
  cases i with
  | zero =>
    obtain rfl := Option.some.inj ht
    cases hfirst with
    | running hleaves => exact ⟨_, K, hleaves, fun h => absurd rfl h⟩
  | succ i =>
    obtain ⟨K₀, M', hgot, haloof, -⟩ := hrest.get ht
    cases hgot with
    | running hleaves => exact ⟨c, K₀, hleaves, fun _ => haloof⟩

/-- A task that nobody disturbs can run to its end. Only the one that dispatches logs starts others. -/
theorem Balanced.exists_finished {p : Activity (Option Routine)} (h : Balanced times c M σ)
    (hcalm : Undisturbed times σ.shared.trace) (hmay : σ.MayRun i) (ht : σ.tasks[i]? = some (.running p)) :
    ∃ ρ new, Leads s σ ρ ∧ Undisturbed times ρ.shared.trace ∧ ρ.holder = none ∧
      ρ.tasks = σ.tasks.set i .ended ++ new ∧ (∀ t ∈ new, ∃ p, t = .ready p) ∧ (i ≠ 0 → new = []) := by
  induction p generalizing σ with
  | done next =>
    obtain ⟨d, K, hleaves, -⟩ := h.running ht
    obtain ⟨rfl, -⟩ := (Task.Owes.running hleaves).ends
    exact ⟨_, [], .single (.finished hmay ht), hcalm, rfl, (List.append_nil _).symm, fun t ht => (nomatch ht),
      fun _ => rfl⟩
  | ask r next ih =>
    obtain ⟨d, K, hleaves, haloof⟩ := h.running ht
    obtain ⟨a, τ, hserved, hnew⟩ := exists_answer hleaves σ.shared i
    have hstep := Step.answered (s := s) hmay ht hserved
    have hi : i < σ.tasks.length := (List.getElem?_eq_some_iff.1 ht).1
    have hcalm' : Undisturbed times (τ.note (.answered i r a)).trace := by
      rw [Shared.trace_note, hserved.trace]
      exact ⟨hnew, hcalm⟩
    have hnext : (σ.tasks.set i (.running (next a)) ++ spawned s r)[i]? = some (.running (next a)) := by
      rw [List.getElem?_append_left (by simpa using hi)]
      simp [hi]
    obtain ⟨ρ, new, hleads, hcalm, hfree, htasks, hready, hnone⟩ := ih a (h.answered ht hserved hnew) hcalm'
      ((holderAfter_cases i (next a)).imp_left And.left) hnext
    refine ⟨ρ, spawned s r ++ new, .head hstep hleads, hcalm, hfree, ?_, fun t ht => ?_, fun hi => ?_⟩
    · rw [htasks]
      simp [hi]
    · rcases List.mem_append.1 ht with ht | ht
      · obtain ⟨routine, -, rfl⟩ := mem_spawned ht
        exact ⟨_, rfl⟩
      · exact hready t ht
    · rw [(haloof hi).1.spawned, hnone hi]
      rfl

theorem Balanced.exists_ended {before after : List Task} (h : Balanced times c M σ)
    (hcalm : Undisturbed times σ.shared.trace) (hfree : σ.holder = none) (htasks : σ.tasks = before ++ after)
    (hfirst : before ≠ []) (hbefore : ∀ t ∈ before, t = .ended) (hafter : ∀ t ∈ after, ∃ p, t = .ready p) :
    ∃ ρ, Leads s σ ρ ∧ Undisturbed times ρ.shared.trace ∧ ρ.tasks[0]? = some .ended ∧ ρ.Elapsed := by
  induction after generalizing σ before with
  | nil =>
    rw [List.append_nil] at htasks
    rw [← htasks] at hfirst hbefore
    obtain ⟨t, ts, hcons⟩ := List.exists_cons_of_ne_nil hfirst
    refine ⟨σ, .refl, hcalm, ?_, hbefore⟩
    rw [hcons, hbefore t (hcons ▸ List.mem_cons_self)]
    rfl
  | cons t ts ih =>
    obtain ⟨⟨p, rfl⟩, hready⟩ := List.forall_mem_cons.1 hafter
    have hi : before.length ≠ 0 := fun hzero => hfirst (List.length_eq_zero_iff.1 hzero)
    have hturn := Step.turn (s := s) (i := before.length) (p := p) (.inl hfree) (by simp [htasks])
    have hbalanced := h.step hturn hcalm
    have hrunning : (σ.tasks.set before.length (.running p))[before.length]? = some (.running p) := by
      simp [htasks]
    obtain ⟨υ, new, hleads, hcalm, hfree, hυ, -, hnone⟩ := hbalanced.exists_finished (s := s) hcalm
      ((holderAfter_cases _ p).imp_left And.left) hrunning
    have hend : υ.tasks = (before ++ [.ended]) ++ ts := by
      rw [hυ, hnone hi]
      simp [htasks]
    obtain ⟨ρ, hrest, hdone⟩ := ih (hbalanced.leads hleads hcalm) hcalm hfree hend (by simp) (by
      intro t ht
      rcases List.mem_append.1 ht with ht | ht
      · exact hbefore t ht
      · exact List.mem_singleton.1 ht) hready
    exact ⟨ρ, .head hturn (hleads.trans hrest), hdone⟩

variable {store : Store.Backend} {memory : Memory} {xs ys : List Delivery}

theorem balanced_delivering (h : Leaves times (· = none) (deliverAll s.agent xs) ⟨store, 0⟩ K c) :
    Balanced times c (memory.toReveal + K) (delivering s store memory xs) :=
  ⟨_, [], K, 0, rfl, .ready h, .nil, by rw [add_zero]; rfl⟩

theorem exists_elapsed (h : Leaves times (· = none) (deliverAll s.agent xs) ⟨store, 0⟩ K c) :
    ∃ ρ, AllDispatched s times store memory xs ρ ∧ ρ.Elapsed := by
  have hturn : Step s (delivering s store memory xs) _ := Step.turn (i := 0) (.inl rfl) rfl
  have hbalanced := (balanced_delivering h).step hturn trivial
  obtain ⟨υ, new, hleads, hcalm, hfree, hυ, hready, -⟩ := hbalanced.exists_finished (s := s) trivial
    ((holderAfter_cases 0 _).imp_left And.left) rfl
  obtain ⟨ρ, hrest, hcalm, hover, hended⟩ := (hbalanced.leads hleads hcalm).exists_ended (s := s) hcalm hfree hυ
    (List.cons_ne_nil _ _) (fun t ht => List.mem_singleton.1 ht) hready
  exact ⟨ρ, ⟨.head hturn (hleads.trans hrest), hcalm, hover⟩, hended⟩

theorem AllDispatched.balanced (hρ : AllDispatched s times store memory xs ρ)
    (h : Leaves times (· = none) (deliverAll s.agent xs) ⟨store, 0⟩ K c) : Balanced times c (memory.toReveal + K) ρ :=
  (balanced_delivering h).leads hρ.leads hρ.undisturbed

/-- The mode in which a log is dispatched decides when a hash is queued, not whether. -/
theorem scan_mode_delays_only (s : Settings) (times : Nat → Int64) (store : Store.Backend) (memory : Memory)
    (hlogs : xs.map (·.log) = ys.map (·.log)) :
    (∃ ρ, AllDispatched s times store memory xs ρ ∧ ρ.Elapsed) ∧
      ∀ ρ ρ', AllDispatched s times store memory xs ρ → AllDispatched s times store memory ys ρ' →
        ρ.shared.store = ρ'.shared.store ∧
          (ρ.Elapsed → ρ'.Elapsed → ρ.shared.memory.toReveal = ρ'.shared.memory.toReveal) := by
  obtain ⟨K, c, hleaves⟩ := leaves_deliverAll times s.agent (ys.map (·.log)) ⟨store, 0⟩
  have hxs := hleaves xs hlogs
  have hys := hleaves ys rfl
  refine ⟨exists_elapsed hxs, fun ρ ρ' hρ hρ' => ⟨?_, fun hended hended' => ?_⟩⟩
  · rw [(hρ.balanced hxs).store_eq hρ.finished, (hρ'.balanced hys).store_eq hρ'.finished]
  · rw [(hρ.balanced hxs).toReveal_eq hended, (hρ'.balanced hys).toReveal_eq hended']

def seenTwice (mode : ScanMode) : List Delivery :=
  [⟨0, firstLog, mode⟩, ⟨0, firstLog, mode⟩, ⟨0, secondLog, .live⟩]

theorem scan_mode_delays_only_seenTwice :
    (seenTwice .live).map (·.log) = (seenTwice .backfill).map (·.log) ∧
      ∃ ρ ρ', AllDispatched usual (fun _ => 0) firstCommitted.shared.store (.empty 1) (seenTwice .live) ρ ∧
        AllDispatched usual (fun _ => 0) firstCommitted.shared.store (.empty 1) (seenTwice .backfill) ρ' ∧
        ρ.shared.store = ρ'.shared.store ∧ ρ.shared.memory.toReveal = ρ'.shared.memory.toReveal := by
  have hlogs : (seenTwice .live).map (·.log) = (seenTwice .backfill).map (·.log) := rfl
  let store := firstCommitted.shared.store
  obtain ⟨⟨ρ, hρ, hended⟩, hsame⟩ := scan_mode_delays_only usual (fun _ => 0) store (.empty 1) hlogs
  obtain ⟨⟨ρ', hρ', hended'⟩, -⟩ := scan_mode_delays_only usual (fun _ => 0) store (.empty 1) hlogs.symm
  obtain ⟨hstore, hmemory⟩ := hsame ρ ρ' hρ hρ'
  exact ⟨hlogs, ρ, ρ', hρ, hρ', hstore, hmemory hended hended'⟩

end System

end CommitReveal.Agent
