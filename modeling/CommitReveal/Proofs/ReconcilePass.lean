import CommitReveal.Proofs.Finished
import CommitReveal.Proofs.Passage

/-! A reconcile pass loses no request for a reveal. The hashes that were put off are taken out before the chain
is asked; they go back if the pass fails anywhere, and otherwise each of them is queued or put off again,
unless the oracle's answer ends the duty to reveal it. -/
namespace CommitReveal.Agent

open Program
open Repository (key peek key_inj)

variable {s : Settings} {h : Hash} {work : List Hash} {m : Memory} {σ τ : Passage} {t u : Transcript interface}

section Queueing

/-- How many hashes a queue would take in. -/
def vacancy (q : RevealQueue) : Nat :=
  if q.receiver = .gone then 0 else q.capacity - q.waiting.length

/-- The memory when hashes have been offered to the queue in turn: as many as there is room for wait in it,
the others are put off. -/
def Memory.offered (m : Memory) (hashes : List Hash) : Memory :=
  { m with
    queue := { m.queue with waiting := m.queue.waiting ++ hashes.take (vacancy m.queue) }
    deferred := m.deferred ++ hashes.drop (vacancy m.queue) }

theorem Memory.offered_nil (m : Memory) : m.offered [] = m := by
  simp [Memory.offered]

theorem Memory.offered_full (hfull : vacancy m.queue = 0) (hashes : List Hash) :
    m.offered hashes = { m with deferred := m.deferred ++ hashes } := by
  simp [Memory.offered, hfull]

theorem Memory.offered_one {n : Nat} (hroom : vacancy m.queue = n + 1) (h : Hash) :
    m.offered [h] = { m with queue := { m.queue with waiting := m.queue.waiting ++ [h] } } ∧
      vacancy (m.offered [h]).queue = n := by
  have hone : m.offered [h] = { m with queue := { m.queue with waiting := m.queue.waiting ++ [h] } } := by
    simp [Memory.offered, hroom]
  refine ⟨hone, ?_⟩
  unfold vacancy at *
  rw [hone]
  split at hroom
  · cases hroom
  · rename_i hopen
    rw [if_neg hopen, List.length_append, List.length_singleton]
    show m.queue.capacity - _ = n
    omega

theorem Memory.offered_cons (m : Memory) (h : Hash) (rest : List Hash) :
    m.offered (h :: rest) = (m.offered [h]).offered rest := by
  cases hroom : vacancy m.queue with
  | zero =>
    have hstill : vacancy (m.offered [h]).queue = 0 := by rwa [Memory.offered_full hroom]
    rw [Memory.offered_full hstill, Memory.offered_full hroom, Memory.offered_full hroom, List.append_assoc]
    rfl
  | succ n =>
    obtain ⟨hone, hless⟩ := Memory.offered_one hroom h
    unfold Memory.offered at hless ⊢
    rw [hless]
    simp [hroom]

def offers (t : Transcript interface) : List Hash :=
  t.filterMap fun
    | ⟨.memory (.enqueue h), _⟩ => some h
    | _ => none

theorem offers_append (t u : Transcript interface) : offers (t ++ u) = offers t ++ offers u :=
  List.filterMap_append

def Request.Unoffering : Request → Prop
  | .memory (.enqueue _) => False
  | _ => True

theorem offers_eq_nil {α : Type} {p q : Activity α} (hp : p.Only Request.Unoffering) (h : p.Reaches t q) :
    offers t = [] := by
  refine List.filterMap_eq_nil_iff.2 fun x hx => ?_
  have hx := Only.of_reaches hp h x hx
  split
  · exact hx.elim
  · rfl

theorem Memory.perform_enqueue (m : Memory) (h : Hash) :
    (vacancy m.queue = 0 ∧ (Memory.perform (.enqueue h) m).1 ≠ .queued ∧
      (Memory.perform (.enqueue h) m).2 = m) ∨
    Memory.perform (.enqueue h) m = (.queued, m.offered [h]) := by
  simp only [Memory.perform, RevealQueue.enqueue]
  split
  · rename_i hgone
    exact .inl ⟨if_pos hgone, by simp, rfl⟩
  · rename_i hopen
    have hvacancy : vacancy m.queue = m.queue.capacity - m.queue.waiting.length := if_neg hopen
    split
    · rename_i hless
      obtain ⟨n, hn⟩ : ∃ n, vacancy m.queue = n + 1 := ⟨vacancy m.queue - 1, by omega⟩
      exact .inr (by rw [(Memory.offered_one hn h).1])
    · rename_i hfull
      exact .inl ⟨by omega, by simp, rfl⟩

theorem endsAfter_defer {hashes : List Hash} (hends : (defer hashes).EndsAfter among σ t () τ) :
    τ.shared = { σ.shared with
      memory := { σ.shared.memory with deferred := σ.shared.memory.deferred ++ hashes } } ∧
    τ.left = σ.left ∧ offers t = [] := by
  obtain ⟨rfl, ⟨-, hτ⟩, hleft⟩ := endsAfter_busy rfl hends
  exact ⟨hτ, hleft, rfl⟩

theorem endsAfter_requestReveal (hends : (requestReveal h).EndsAfter among σ t () τ) :
    τ.shared = { σ.shared with memory := σ.shared.memory.offered [h] } ∧ τ.left = σ.left ∧ offers t = [h] := by
  unfold requestReveal at hends
  obtain ⟨t₁, t₂, answer, υ, rfl, hoffer, hrest⟩ := EndsAfter.of_bind hends
  obtain ⟨rfl, ⟨hanswer, hυ⟩, hleft⟩ := endsAfter_busy rfl hoffer
  have hoffers : offers ([⟨.memory (.enqueue h), answer⟩] ++ t₂) = h :: offers t₂ := rfl
  -- whichever way the queue refuses the hash, it is put off
  have hrefused {n : Notice} (hvacancy : vacancy σ.shared.memory.queue = 0) (hsame : υ.shared = σ.shared)
      (hrest : ((notify n).bind fun _ => defer [h]).EndsAfter among υ t₂ () τ) :
      τ.shared = { σ.shared with memory := σ.shared.memory.offered [h] } ∧ τ.left = σ.left ∧
        offers ([⟨.memory (.enqueue h), answer⟩] ++ t₂) = [h] := by
    obtain ⟨t₃, t₄, ⟨⟩, ω, rfl, hnotify, hdefer⟩ := EndsAfter.of_bind hrest
    obtain ⟨rfl, rfl⟩ := endsAfter_notify hnotify
    obtain ⟨hτ, hleft', hnone⟩ := endsAfter_defer hdefer
    rw [hoffers, offers_append, hnone, hτ, hsame, Memory.offered_full hvacancy]
    exact ⟨rfl, hleft'.trans hleft, rfl⟩
  rcases Memory.perform_enqueue σ.shared.memory h with ⟨hvacancy, hno, hsame⟩ | hqueued
  · rw [hsame] at hυ
    cases answer with
    | queued => exact absurd hanswer.symm hno
    | full => exact hrefused hvacancy hυ hrest
    | closed => exact hrefused hvacancy hυ hrest
  · rw [hqueued] at hυ hanswer
    obtain rfl : answer = .queued := hanswer
    obtain ⟨rfl, -, rfl⟩ := endsAfter_done.1 hrest
    exact ⟨hυ, hleft, rfl⟩

theorem endsAfter_requestReveals (hends : (requestReveals work).EndsAfter among σ t () τ) :
    τ.shared = { σ.shared with memory := σ.shared.memory.offered work } ∧ τ.left = σ.left ∧
      offers t = work := by
  induction work generalizing σ t with
  | nil =>
    obtain ⟨rfl, -, rfl⟩ := endsAfter_done.1 hends
    exact ⟨by rw [Memory.offered_nil], rfl, rfl⟩
  | cons h rest ih =>
    obtain ⟨t₁, t₂, ⟨⟩, υ, rfl, hfirst, hrest⟩ := EndsAfter.of_bind hends
    obtain ⟨hυ, hleft, hone⟩ := endsAfter_requestReveal hfirst
    obtain ⟨hτ, hleft', hothers⟩ := ih hrest
    rw [hτ, hυ, Memory.offered_cons σ.shared.memory h rest, offers_append, hone, hothers]
    exact ⟨rfl, hleft'.trans hleft, rfl⟩

end Queueing

section Answers

inductive Request.Noting (h : Hash) : Request → Prop
  | keeps {r : Repository.Request} {seed : Option Seed} (keeping : r.Keeping h seed) : Noting h (.store r)
  | notifies (n : Notice) : Noting h (.notify n)

theorem Request.Noting.touching {r : Request} (hr : r.Noting h) : r.Touching h := by
  cases hr with
  | keeps keeping => exact .keeps keeping
  | notifies n => exact .notifies n

theorem Request.Noting.memory {r : Request} {a : r.Answer} {σ τ : Shared} (hr : r.Noting h)
    (hserved : Served r a σ τ) : τ.memory = σ.memory := by
  cases hr with
  | @keeps r seed keeping =>
    cases r with
    | call c => rcases hserved with ⟨_, _, rfl⟩ | ⟨_, rfl⟩ <;> rfl
    | clock => exact congrArg Shared.memory hserved
  | notifies n => exact congrArg Shared.memory hserved

structure Noted (h : Hash) (σ τ : Passage) : Prop where
  left : τ.left = σ.left
  memory : τ.shared.memory = σ.shared.memory
  entries : ∀ k, (∀ field, k ≠ key field h) → τ.shared.store.get? k = σ.shared.store.get? k

theorem Noted.refl (h : Hash) (σ : Passage) : Noted h σ σ :=
  ⟨rfl, rfl, fun _ _ => rfl⟩

theorem Noted.trans {υ : Passage} (h₁ : Noted h σ τ) (h₂ : Noted h τ υ) : Noted h σ υ :=
  ⟨h₂.left.trans h₁.left, h₂.memory.trans h₁.memory, fun k hk => (h₂.entries k hk).trans (h₁.entries k hk)⟩

theorem upholds_noting {α : Type} {p : Activity α} (hp : p.Only (Request.Noting h)) (σ : Passage) :
    p.Upholds among (fun _ τ => Noted h σ τ) σ := by
  induction p generalizing σ with
  | done a => exact .refl h σ
  | ask r next ih =>
    have hr : Request.Noting h r := hp.1
    intro υ hυ
    obtain rfl := (meanwhile_busy hr.touching.busy).1 hυ
    refine ⟨trivial, fun a ω hω => ?_⟩
    have hone : Noted h υ ω := ⟨hω.2, hr.memory hω.1, fun k hk => hr.touching.get?_eq hω.1 hk⟩
    exact (ih a (hp.2 a) ω).imp fun _ _ hτ => hone.trans hτ

theorem notes_keeps {α : Type} {seed : Option Seed} {a : Repository.Action α}
    (ha : Repository.Keeps h seed a) : (repository a).run.Only (Request.Noting h) :=
  Only.bind (Only.interpret (ha.imp fun _ hr => ⟨.keeps hr, fun _ => trivial⟩)) fun _ => trivial

theorem notes_notify (n : Notice) : (liftM (notify n) : Attempt Unit).run.Only (Request.Noting h) :=
  Only.lift ⟨.notifies n, fun _ => trivial⟩

/-- Whether the oracle's answer leaves the reveal of a hash owed. -/
def isOwed (s : Settings) (records : List OracleRecord) (head : Word) (h : Hash) : Bool :=
  match listed? records h with
  | none => false
  | some r => !r.revealed && !isExpired r.commitBlock head s.limits.maxUnverified

structure Spared (records : List OracleRecord) (σ τ : Passage) : Prop where
  left : τ.left = σ.left
  memory : τ.shared.memory = σ.shared.memory
  entries : ∀ h, listed? records h = none → ∀ field,
    τ.shared.store.get? (key field h) = σ.shared.store.get? (key field h)

variable {records : List OracleRecord}

theorem Spared.refl (records : List OracleRecord) (σ : Passage) : Spared records σ σ :=
  ⟨rfl, rfl, fun _ _ _ => rfl⟩

theorem Spared.trans {υ : Passage} (h₁ : Spared records σ τ) (h₂ : Spared records τ υ) :
    Spared records σ υ :=
  ⟨h₂.left.trans h₁.left, h₂.memory.trans h₁.memory,
    fun h hnone field => (h₂.entries h hnone field).trans (h₁.entries h hnone field)⟩

theorem Noted.spared (h₁ : Noted h σ τ) (hlisted : (listed? records h).isSome) : Spared records σ τ := by
  refine ⟨h₁.left, h₁.memory, fun g hnone field => h₁.entries _ fun field' heq => ?_⟩
  obtain ⟨-, rfl⟩ := key_inj.1 heq
  rw [hnone] at hlisted
  cases hlisted

theorem attempts_noting {α β : Type} {x : Attempt α} {f : α → Attempt β} {b : β} {σ₀ : Passage}
    (hx : x.run.Only (Request.Noting h)) (hσ : Noted h σ₀ σ)
    (hf : ∀ a τ, Noted h σ₀ τ →
      Attempts among (f a) (fun c υ => c = b ∧ Noted h σ₀ υ) (fun _ υ => Noted h σ₀ υ) τ) :
    Attempts among (x >>= f) (fun c υ => c = b ∧ Noted h σ₀ υ) (fun _ υ => Noted h σ₀ υ) σ := by
  have hboth := upholds_run.1 ((upholds_noting hx σ).imp fun _ _ hτ => hσ.trans hτ)
  exact attempts_bind.2 (hboth.imp (fun a τ hτ => hf a τ hτ) fun _ _ => id)

theorem spares_reconcileListed (head : Word) (h : Hash) (r : OracleRecord) (σ : Passage) :
    Attempts among (reconcileListed s head h r)
      (fun owed τ => owed = (!r.revealed && !isExpired r.commitBlock head s.limits.maxUnverified) ∧ Noted h σ τ)
      (fun _ τ => Noted h σ τ) σ := by
  unfold reconcileListed
  cases hrevealed : r.revealed with
  | true =>
    exact attempts_noting (notes_keeps Repository.keeps_markRevealed) (.refl h σ) fun _ τ hτ => ⟨rfl, hτ⟩
  | false =>
    have hblock := notes_keeps (h := h) (Repository.keeps_setCommitBlock r.commitBlock)
    refine attempts_noting hblock (.refl h σ) fun _ τ hτ => ?_
    cases hexpired : isExpired r.commitBlock head s.limits.maxUnverified with
    | true =>
      refine attempts_noting (notes_notify _) hτ fun _ υ hυ => ?_
      exact attempts_noting (notes_keeps (Repository.keeps_finish .expired)) hυ fun _ ω hω => ⟨rfl, hω⟩
    | false => exact ⟨rfl, hτ⟩

theorem spares_reconcileOne (records : List OracleRecord) (head : Word) (h : Hash) (σ : Passage) :
    Attempts among (reconcileOne s records head h)
      (fun owed τ => owed = isOwed s records head h ∧ Spared records σ τ)
      (fun _ τ => Spared records σ τ) σ := by
  unfold reconcileOne isOwed
  cases hlisted : listed? records h with
  | none => exact ⟨rfl, .refl records σ⟩
  | some r =>
    have hsome : (listed? records h).isSome := by rw [hlisted]; rfl
    exact (spares_reconcileListed head h r σ).imp (fun _ τ hτ => ⟨hτ.1, hτ.2.spared hsome⟩)
      fun _ τ hτ => hτ.spared hsome

theorem spares_reconcileAll (records : List OracleRecord) (head : Word) (hashes : List Hash) (σ : Passage) :
    Attempts among (reconcileAll s records head hashes)
      (fun work τ => work = hashes.filter (isOwed s records head) ∧ Spared records σ τ)
      (fun _ τ => Spared records σ τ) σ := by
  induction hashes generalizing σ with
  | nil => exact ⟨rfl, .refl records σ⟩
  | cons h rest ih =>
    refine attempts_bind.2 ((spares_reconcileOne records head h σ).imp ?_ fun _ _ => id)
    rintro owed τ ⟨rfl, hτ⟩
    refine attempts_bind.2 ((ih τ).imp ?_ fun _ υ hυ => hτ.trans hυ)
    rintro work υ ⟨rfl, hυ⟩
    refine ⟨?_, hτ.trans hυ⟩
    rw [List.filter_cons]

theorem spared_of_endsAfter {head : Word} {hashes : List Hash} {result : Except AgentError (List Hash)}
    (hends : (reconcileAll s records head hashes).run.EndsAfter among σ t result τ) : Spared records σ τ := by
  have hall := (spares_reconcileAll records head hashes σ).ends hends.ends
  cases result with
  | ok work => exact hall.2
  | error cause => exact hall

theorem endsAfter_chain {c : Chain.Call} {result : Except AgentError c.Result}
    (hends : (chain c).run.EndsAfter among σ t result τ) :
    ∃ answer, t = [⟨.chain c, answer⟩] ∧ result = answer.mapError .chain ∧ τ.shared = τ.left := by
  obtain ⟨t₁, t₂, answer, υ, rfl, hcall, hrest⟩ := EndsAfter.of_bind hends
  obtain ⟨rfl, ω, hmeanwhile, hshared, hleft⟩ := endsAfter_request.1 hcall
  obtain ⟨rfl, rfl, rfl⟩ := endsAfter_done.1 hrest
  refine ⟨answer, rfl, rfl, ?_⟩
  have hsame : τ.shared = ω.shared := hshared
  rw [hsame, hleft, (meanwhile_wait rfl).1 hmeanwhile]

/-- The pass by itself never touches the memory; and it writes of no hash that the oracle does not list. -/
theorem endsAfter_reconcile {candidates : List Hash} {result : Except AgentError (List Hash)}
    (hends : (reconcile s candidates).run.EndsAfter among σ t result τ) :
    τ.shared.memory = τ.left.memory ∧ ∀ work, result = .ok work → ∃ records head rest,
      t = ⟨.chain (.listUnverified s.agent), .ok records⟩ :: ⟨.chain .blockNumber, .ok head⟩ :: rest ∧
      work = candidates.eraseDups.filter (isOwed s records head) ∧
      ∀ h, listed? records h = none → ∀ field,
        τ.shared.store.get? (key field h) = τ.left.store.get? (key field h) := by
  rcases hends.of_attempt with ⟨cause, rfl, hlist⟩ | ⟨t₁, t₂, records, υ, rfl, hlist, hrest⟩
  · obtain ⟨listing, -, -, hsame⟩ := endsAfter_chain hlist
    exact ⟨by rw [hsame], fun work hwork => nomatch hwork⟩
  obtain ⟨listing, rfl, hrecords, -⟩ := endsAfter_chain hlist
  rcases hrest.of_attempt with ⟨cause, rfl, hread⟩ | ⟨t₃, t₄, head, ω, rfl, hread, hpass⟩
  · obtain ⟨reading, -, -, hsame⟩ := endsAfter_chain hread
    exact ⟨by rw [hsame], fun work hwork => nomatch hwork⟩
  obtain ⟨reading, rfl, hhead, hsame⟩ := endsAfter_chain hread
  have hall := (spares_reconcileAll records head candidates.eraseDups ω).ends hpass.ends
  have hspared : Spared records ω τ := spared_of_endsAfter hpass
  refine ⟨by rw [hspared.memory, hspared.left, hsame], fun work hwork => ?_⟩
  subst hwork
  refine ⟨records, head, t₄, ?_, hall.1, fun h hnone field => ?_⟩
  · cases listing <;> cases hrecords
    cases reading <;> cases hhead
    rfl
  · rw [hspared.entries h hnone field, hspared.left, hsame]

end Answers

section Pass

variable {stored : List Hash}

/-- The pending set as a pass has read it. If it cannot be read, the pass goes on without it. -/
def PendingRead (b : Store.Backend) (t : Transcript interface) (stored : List Hash) : Prop :=
  peek Repository.pendingHashes b = .ok stored ∨
    stored = [] ∧ ∃ cause, ⟨.notify (.pendingUnreadable cause), ()⟩ ∈ t

theorem endsAfter_pendingHashes {answer : Except Store.StoreError (List Hash)}
    (hends : (callRepository Repository.pendingHashes).EndsAfter among σ t answer τ) :
    τ = σ ∧ offers t = [] ∧
      ∀ hashes, answer = .ok hashes → peek Repository.pendingHashes σ.shared.store = .ok hashes := by
  obtain ⟨x, u, υ, ω, rfl, hmeanwhile, ⟨hserved, hleft⟩, hdecode⟩ := endsAfter_ask.1 hends
  obtain rfl := (meanwhile_busy rfl).1 hmeanwhile
  have hsame : ω = υ := by
    refine Passage.ext ?_ hleft
    rcases hserved with ⟨_, _, hshared⟩ | ⟨_, hshared⟩
    · exact hshared
    · rw [hshared, Store.Backend.perform_scan]
  cases x with
  | error cause =>
    have hend : (done (.error cause)).EndsAfter among ω u answer τ := hdecode
    obtain ⟨rfl, rfl, rfl⟩ := endsAfter_done.1 hend
    exact ⟨hsame, rfl, fun hashes hok => nomatch hok⟩
  | ok entries =>
    have hend : (done (entries.mapM fun e => Repository.hashOfBytes
        (e.1.drop Repository.Field.pending.mark.length))).EndsAfter among ω u answer τ := hdecode
    obtain ⟨rfl, rfl, rfl⟩ := endsAfter_done.1 hend
    refine ⟨hsame, rfl, fun hashes hok => ?_⟩
    rcases hserved with ⟨_, hcause, -⟩ | ⟨hcause, -⟩
    · cases hcause
    · rcases hcause with hentries | ⟨_, hcause⟩
      · rw [Repository.peek_pendingHashes_eq, ← hok, Except.ok.inj hentries]
      · cases hcause

theorem endsAfter_storedPending (hends : storedPending.EndsAfter among σ t stored τ) :
    τ = σ ∧ offers t = [] ∧ PendingRead σ.shared.store t stored := by
  unfold storedPending at hends
  obtain ⟨t₁, t₂, answer, υ, rfl, hread, hrest⟩ := EndsAfter.of_bind hends
  obtain ⟨rfl, hnone, hpeek⟩ := endsAfter_pendingHashes hread
  cases answer with
  | ok hashes =>
    obtain ⟨rfl, rfl, rfl⟩ := endsAfter_done.1 hrest
    exact ⟨rfl, by rw [List.append_nil, hnone], .inl (hpeek _ rfl)⟩
  | error cause =>
    obtain ⟨t₃, t₄, ⟨⟩, ω, rfl, hnotify, hend⟩ := EndsAfter.of_bind hrest
    obtain ⟨rfl, rfl⟩ := endsAfter_notify hnotify
    obtain ⟨rfl, rfl, rfl⟩ := endsAfter_done.1 hend
    exact ⟨rfl, by rw [offers_append, hnone]; rfl, .inr ⟨rfl, cause, by simp⟩⟩

def Passage.emptied (σ : Passage) : Passage :=
  ⟨{ σ.shared with memory := { σ.shared.memory with deferred := [] } }, σ.left⟩

theorem Passage.emptied_of_nil (hnil : σ.shared.memory.deferred = []) : σ.emptied = σ := by
  unfold Passage.emptied
  rw [← hnil]

/-- What has come of a pass that began in `σ` and went on with the pending set `stored`. -/
inductive Passed (s : Settings) (σ : Passage) (stored : List Hash) (t : Transcript interface) (τ : Passage) :
    Prop
  /-- Nothing was pending and nothing was put off. -/
  | idle (none : stored ++ σ.shared.memory.deferred = []) (same : τ = σ) (unqueued : offers t = [])
  /-- The chain or the store has failed: what was put off is put off again, behind what the others have put off
  meanwhile, and the queue is as they have left it. -/
  | failed {before during after : Transcript interface} {cause : AgentError} {υ : Passage}
    (told : t = before ++ during ++ after)
    (reconciled : (reconcile s (stored ++ σ.shared.memory.deferred)).run.EndsAfter among σ.emptied during
      (.error cause) υ)
    (left : τ.left = υ.left) (unqueued : offers t = [])
    (memory : τ.shared.memory =
      { τ.left.memory with deferred := τ.left.memory.deferred ++ σ.shared.memory.deferred })
  /-- What the oracle's answer leaves owed is queued, as far as there is room, and else put off; of what is not
  listed the mark is as the others have left it. -/
  | succeeded {before during after rest : Transcript interface} {work : List Hash} {υ : Passage}
    {records : List OracleRecord} {head : Word} (told : t = before ++ during ++ after)
    (reconciled : (reconcile s (stored ++ σ.shared.memory.deferred)).run.EndsAfter among σ.emptied during
      (.ok work) υ)
    (left : τ.left = υ.left)
    (answered : during = ⟨.chain (.listUnverified s.agent), .ok records⟩ ::
      ⟨.chain .blockNumber, .ok head⟩ :: rest)
    (nodup : work.Nodup)
    (settled : ∀ h ∈ stored ++ σ.shared.memory.deferred, h ∈ work ∨ listed? records h = none ∨
      ∃ r, listed? records h = some r ∧ (r.revealed ∨ isExpired r.commitBlock head s.limits.maxUnverified))
    (queued : offers t = work) (memory : τ.shared.memory = τ.left.memory.offered work)
    (unlisted : ∀ h, listed? records h = none →
      τ.shared.store.get? (key .pending h) = τ.left.store.get? (key .pending h))

inductive Request.Inquiring : Request → Prop
  | chain (c : Chain.Call) : Inquiring (.chain c)
  | store (r : Repository.Request) : Inquiring (.store r)
  | notify (n : Notice) : Inquiring (.notify n)

theorem Request.Inquiring.unoffering {r : Request} (hr : r.Inquiring) : r.Unoffering := by
  cases hr <;> trivial

theorem Request.Inquiring.answerable {r : Request} (hr : r.Inquiring) : r.Answerable := by
  cases hr <;> nofun

theorem inquires_reconcile (candidates : List Hash) :
    (reconcile s candidates).run.Only Request.Inquiring := by
  have hcall (c : Chain.Call) : (chain c).run.Only Request.Inquiring :=
    ⟨.chain c, fun _ => trivial⟩
  exact Only.attempt (hcall _) fun records => Only.attempt (hcall _) fun head =>
    only_reconcileAll .store .notify records head _

theorem PendingRead.mono {b : Store.Backend} (h : PendingRead b t stored) (u : Transcript interface) :
    PendingRead b (t ++ u) stored := by
  rcases h with hread | ⟨hnil, cause, hmem⟩
  · exact .inl hread
  · exact .inr ⟨hnil, cause, List.mem_append_left u hmem⟩

def settlePass (deferred : List Hash) : Except AgentError (List Hash) → Activity Unit
  | .ok work => do
    if !work.isEmpty then
      notify (.reconcileQueued work.length)
    requestReveals work
  | .error cause => do
    notify (.reconcileFailed cause)
    defer deferred

theorem endsAfter_settlePass {deferred : List Hash} {result : Except AgentError (List Hash)}
    (hends : (settlePass deferred result).EndsAfter among σ t () τ) : τ.left = σ.left ∧
      match result with
      | .ok work => offers t = work ∧ τ.shared = { σ.shared with memory := σ.shared.memory.offered work }
      | .error _ => offers t = [] ∧ τ.shared = { σ.shared with
          memory := { σ.shared.memory with deferred := σ.shared.memory.deferred ++ deferred } } := by
  cases result with
  | error cause =>
    obtain ⟨t₁, t₂, ⟨⟩, υ, rfl, hnotify, hdefer⟩ := EndsAfter.of_bind hends
    obtain ⟨rfl, rfl⟩ := endsAfter_notify hnotify
    obtain ⟨hτ, hleft, hnone⟩ := endsAfter_defer hdefer
    exact ⟨hleft, hnone, hτ⟩
  | ok work =>
    cases work with
    | nil =>
      have hreveals : (requestReveals []).EndsAfter among σ t () τ := hends
      obtain ⟨hτ, hleft, hwork⟩ := endsAfter_requestReveals hreveals
      exact ⟨hleft, hwork, hτ⟩
    | cons h rest =>
      obtain ⟨t₁, t₂, ⟨⟩, υ, rfl, hnotify, hreveals⟩ := EndsAfter.of_bind hends
      obtain ⟨rfl, rfl⟩ := endsAfter_notify hnotify
      obtain ⟨hτ, hleft, hwork⟩ := endsAfter_requestReveals hreveals
      exact ⟨hleft, hwork, hτ⟩

theorem settled_of_filter {candidates : List Hash} {records : List OracleRecord} {head : Word}
    (hmem : h ∈ candidates) :
    h ∈ candidates.eraseDups.filter (isOwed s records head) ∨ listed? records h = none ∨
      ∃ r, listed? records h = some r ∧
        (r.revealed ∨ isExpired r.commitBlock head s.limits.maxUnverified) := by
  cases hlisted : listed? records h with
  | none => exact .inr (.inl rfl)
  | some r =>
    by_cases hover : r.revealed ∨ isExpired r.commitBlock head s.limits.maxUnverified
    · exact .inr (.inr ⟨r, rfl, hover⟩)
    · refine .inl (List.mem_filter.2 ⟨List.mem_eraseDups.2 hmem, ?_⟩)
      rw [isOwed, hlisted]
      simpa using hover

theorem nodup_eraseDups (hashes : List Hash) : hashes.eraseDups.Nodup := by
  match hashes with
  | [] => exact .nil
  | h :: rest =>
    rw [List.eraseDups_cons]
    refine List.nodup_cons.2 ⟨fun hmem => ?_, nodup_eraseDups _⟩
    have hne := (List.mem_filter.1 (List.mem_eraseDups.1 hmem)).2
    simp at hne
  termination_by hashes.length
  decreasing_by exact Nat.lt_succ_of_le (List.length_filter_le _ _)

theorem passed_of_endsAfter (hends : (reconcileTick s).EndsAfter among σ t () τ) :
    ∃ stored, PendingRead σ.shared.store t stored ∧ Passed s σ stored t τ := by
  unfold reconcileTick at hends
  obtain ⟨t₁, t₂, stored, υ, rfl, hstored, hbehind⟩ := EndsAfter.of_bind hends
  obtain ⟨rfl, hnone, hread⟩ := endsAfter_storedPending hstored
  obtain ⟨t₃, t₄, deferred, υ', rfl, htake, hrest⟩ := EndsAfter.of_bind hbehind
  obtain ⟨rfl, ⟨hdeferred, hshared⟩, hleft⟩ := endsAfter_busy rfl htake
  obtain rfl : deferred = υ.shared.memory.deferred := hdeferred
  obtain rfl : υ' = υ.emptied := Passage.ext hshared hleft
  refine ⟨stored, hread.mono _, ?_⟩
  rw [← List.append_assoc]
  have hbefore : offers (t₁ ++ [⟨.memory .takeDeferred, υ.shared.memory.deferred⟩]) = [] := by
    rw [offers_append, hnone]
    rfl
  generalize t₁ ++ [⟨.memory .takeDeferred, υ.shared.memory.deferred⟩] = before at hbefore ⊢
  dsimp only at hrest
  split at hrest
  · rename_i hempty
    have hnil : stored ++ υ.shared.memory.deferred = [] := List.isEmpty_iff.1 hempty
    obtain ⟨rfl, -, rfl⟩ := endsAfter_done.1 hrest
    have hsame : υ.emptied = υ := Passage.emptied_of_nil (List.append_eq_nil_iff.1 hnil).2
    exact .idle hnil hsame (by rw [List.append_nil, hbefore])
  · obtain ⟨during, after, result, ω, rfl, hpass, hend⟩ := EndsAfter.of_bind hrest
    obtain ⟨hmemory, hwork⟩ := endsAfter_reconcile hpass
    have hduring : offers during = [] :=
      offers_eq_nil ((inquires_reconcile _).imp fun _ => Request.Inquiring.unoffering) hpass.reaches
    have hoffers : offers (before ++ (during ++ after)) = offers after := by
      rw [offers_append, hbefore, offers_append, hduring]
      rfl
    have hend' : (settlePass υ.shared.memory.deferred result).EndsAfter among ω after () τ := by
      cases result <;> exact hend
    obtain ⟨hleft', hsettled⟩ := endsAfter_settlePass hend'
    cases result with
    | error cause =>
      obtain ⟨hafter, hτ⟩ := hsettled
      refine .failed (List.append_assoc ..).symm hpass hleft' (hoffers.trans hafter) ?_
      rw [hτ, hleft', ← hmemory]
    | ok work =>
      obtain ⟨hafter, hτ⟩ := hsettled
      obtain ⟨records, head, rest, hanswered, hfilter, hunlisted⟩ := hwork work rfl
      refine .succeeded (List.append_assoc ..).symm hpass hleft' hanswered ?_ ?_ (hoffers.trans hafter) ?_ ?_
      · rw [hfilter]
        exact (nodup_eraseDups _).filter _
      · intro h hmem
        rw [hfilter]
        exact settled_of_filter hmem
      · rw [hτ, hleft', ← hmemory]
      · intro h hlisted
        rw [hleft', ← hunlisted h hlisted .pending, hτ]

theorem answerable_requestReveals (hashes : List Hash) :
    (requestReveals hashes).Only Request.Answerable := by
  induction hashes with
  | nil => trivial
  | cons h rest ih =>
    have hone : (requestReveal h).Only Request.Answerable := by
      refine ⟨nofun, fun answer => ?_⟩
      cases answer with
      | queued => trivial
      | full => exact ⟨nofun, fun _ => ⟨nofun, fun _ => trivial⟩⟩
      | closed => exact ⟨nofun, fun _ => ⟨nofun, fun _ => trivial⟩⟩
    exact hone.bind fun _ => ih

theorem answerable_reconcileTick (s : Settings) : (reconcileTick s).Only Request.Answerable := by
  have hstored : storedPending.Only Request.Inquiring := by
    refine (only_callRepository .store _).bind fun answer => ?_
    cases answer with
    | ok hashes => trivial
    | error cause => exact ⟨.notify _, fun _ => trivial⟩
  unfold reconcileTick
  refine Only.bind (hstored.imp fun _ => Request.Inquiring.answerable) fun stored => ?_
  refine Only.bind (p := ask (.memory .takeDeferred)) ⟨nofun, fun _ => trivial⟩ fun deferred => ?_
  dsimp only
  split
  · trivial
  refine Only.bind ((inquires_reconcile _).imp fun _ => Request.Inquiring.answerable) fun result => ?_
  cases result with
  | error cause => exact ⟨nofun, fun _ => ⟨nofun, fun _ => trivial⟩⟩
  | ok work =>
    dsimp only
    split
    · exact ⟨nofun, fun _ => answerable_requestReveals work⟩
    · exact answerable_requestReveals work

/-- However a pass ends, the hashes that were put off are back, or were queued or put off anew, or the
oracle's answer has ended the duty to reveal them. -/
theorem reconcile_loses_no_request (s : Settings) (σ : Passage) :
    (∃ t τ, (reconcileTick s).EndsAfter among σ t () τ) ∧
    ∀ t τ, (reconcileTick s).EndsAfter among σ t () τ →
      ∃ stored, PendingRead σ.shared.store t stored ∧ Passed s σ stored t τ := by
  refine ⟨?_, fun t τ hends => passed_of_endsAfter hends⟩
  obtain ⟨t, ⟨⟩, τ, hends⟩ := exists_endsAfter (answerable_reconcileTick s) σ
  exact ⟨t, τ, hends⟩

def passInVain : Transcript interface :=
  [⟨.store (.call (.scan Repository.Field.pending.mark)), .ok []⟩, ⟨.memory .takeDeferred, [.fill 32 3]⟩,
    ⟨.chain (.listUnverified usual.agent), .error (.rpc "down")⟩,
    ⟨.notify (.reconcileFailed (.chain (.rpc "down"))), ()⟩, ⟨.memory (.defer [.fill 32 3]), ()⟩]

theorem reconcile_loses_no_request_chainDown : ∃ σ τ : Passage,
    (reconcileTick usual).EndsAfter among σ passInVain () τ ∧ Passed usual σ [] passInVain τ ∧
    σ.shared.memory.deferred = [.fill 32 3] ∧ τ.left.memory.deferred = [.fill 32 4] ∧
    τ.shared.memory.deferred = [.fill 32 4, .fill 32 3] := by
  let held : Shared := ⟨.memory .empty, { Memory.empty 1 with deferred := [.fill 32 3] }, []⟩
  let emptied : Shared := ⟨.memory .empty, .empty 1, []⟩
  let pushed : Shared := ⟨.memory .empty, { Memory.empty 1 with deferred := [.fill 32 4] }, []⟩
  let back : Shared := ⟨.memory .empty, { Memory.empty 1 with deferred := [.fill 32 4, .fill 32 3] }, []⟩
  have scanned : among.Served (.store (.call (.scan Repository.Field.pending.mark))) (.ok []) ⟨held, held⟩
      ⟨held, held⟩ := ⟨.inr ⟨.inl (by decide +kernel), rfl⟩, rfl⟩
  have taken : among.Served (.memory .takeDeferred) [.fill 32 3] ⟨held, held⟩ ⟨emptied, held⟩ :=
    ⟨⟨rfl, rfl⟩, rfl⟩
  have waited : among.Meanwhile (.chain (.listUnverified usual.agent)) ⟨emptied, held⟩ ⟨pushed, pushed⟩ := rfl
  have asked : among.Served (.chain (.listUnverified usual.agent)) (.error (.rpc "down")) ⟨pushed, pushed⟩
      ⟨pushed, pushed⟩ := ⟨rfl, rfl⟩
  have reported : among.Served (.notify (.reconcileFailed (.chain (.rpc "down")))) () ⟨pushed, pushed⟩
      ⟨pushed, pushed⟩ := ⟨rfl, rfl⟩
  have deferred : among.Served (.memory (.defer [.fill 32 3])) () ⟨pushed, pushed⟩ ⟨back, pushed⟩ :=
    ⟨⟨rfl, rfl⟩, rfl⟩
  have hrun : (reconcileTick usual).EndsAfter among ⟨held, held⟩ passInVain () ⟨back, pushed⟩ :=
    .ask rfl scanned (.ask rfl taken (.ask waited asked (.ask rfl reported (.ask rfl deferred (.done () _)))))
  obtain ⟨stored, hread, hpassed⟩ := (reconcile_loses_no_request usual ⟨held, held⟩).2 _ _ hrun
  obtain rfl : stored = [] := by
    rcases hread with hread | ⟨hnil, -⟩
    · exact Except.ok.inj (hread.symm.trans (by decide +kernel))
    · exact hnil
  exact ⟨_, _, hrun, hpassed, rfl, rfl, rfl⟩

end Pass

end CommitReveal.Agent
