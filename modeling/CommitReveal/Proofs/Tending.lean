import CommitReveal.Proofs.Prompt
import CommitReveal.Proofs.ReconcilePass

/-! A task that sees to one hash: what it asks for, how what it sends is told from what it is answered, and what it
leaves alone. -/
namespace CommitReveal.Agent

open Program
open Repository (key)

variable {s : Settings} {h : Hash} {α : Type} {p : Activity α} {a : α} {t u : Transcript interface}

section Requests

def subject : Chain.Submission → Option Hash
  | .commit h | .reveal h _ => some h
  | .approve _ _ => none

/-- Requests of a task that sees to one hash. -/
inductive Request.Tending (h : Hash) : Request → Prop
  | notes {r : Request} (noting : r.Noting h) : Tending h r
  | counts (owner : Address) : Tending h (.chain (.transactionCount owner))
  | sends {what : Chain.Submission} (nonce : Word) (about : subject what = some h) :
    Tending h (.chain (.submit what nonce))
  | takes (count : Option Word) : Tending h (.memory (.takeNonce count))
  | releases (nonce : Word) : Tending h (.memory (.releaseNonce nonce))
  | awaits (tx : TxHash) (poll timeout : Nat) : Tending h (.receipt tx poll timeout)
  | defers : Tending h (.memory (.defer [h]))
  | aborts (f : Fault) : Tending h (.abort f)

theorem tends_ask {r : Request} (hr : r.Tending h) : (ask r).Only (Request.Tending h) :=
  ⟨hr, fun _ => trivial⟩

theorem tends_notify (n : Notice) : (notify n).Only (Request.Tending h) :=
  tends_ask (.notes (.notifies n))

theorem tends_keeps {seed : Option Seed} {a : Repository.Action α} (ha : Repository.Keeps h seed a) :
    (repository a).run.Only (Request.Tending h) :=
  (notes_keeps ha).imp fun _ => .notes

theorem tends_reads {a : Repository.Action α} (ha : Repository.Reads a) :
    (repository a).run.Only (Request.Tending h) :=
  tends_keeps (ha.keeps : Repository.Keeps h none a)

theorem coversSending_tending : CoversSending (Request.Tending h) where
  counts := .counts
  takes := .takes
  releases := .releases
  notifies n := .notes (.notifies n)
  aborts := .aborts

theorem tends_submit {what : Chain.Submission} (habout : subject what = some h) :
    (submit s what).Only (Request.Tending h) :=
  only_submit coversSending_tending fun nonce => .sends nonce habout

theorem tends_confirm (tx : TxHash) : (confirm s tx).Only (Request.Tending h) :=
  only_confirm coversSending_tending (.awaits tx _ _)

theorem tends_settleReveal (seed : Seed) (receipt : Option TxOutcome) :
    (settleReveal h seed receipt).run.Only (Request.Tending h) := by
  rcases receipt with _ | ⟨block, _ | _⟩
  · exact Only.attempt (Only.lift (tends_notify _)) fun _ => trivial
  · exact Only.attempt (Only.lift (tends_notify _)) fun _ => trivial
  · refine Only.attempt (tends_keeps Repository.keeps_markRevealed) fun _ => ?_
    exact Only.attempt (Only.lift (tends_notify _)) fun _ => trivial

theorem tends_submitReveal (seed : Seed) : (submitReveal s h seed).run.Only (Request.Tending h) := by
  refine Only.attempt (Only.lift (tends_submit rfl)) fun answer => ?_
  cases answer with
  | error cause => exact Only.attempt (Only.lift (tends_notify _)) fun _ => trivial
  | ok tx =>
    refine Only.attempt (Only.lift (tends_notify _)) fun _ => ?_
    exact Only.attempt (Only.lift (tends_confirm tx)) fun receipt => tends_settleReveal seed receipt

theorem tends_reveal (s : Settings) (h : Hash) : (reveal s h).run.Only (Request.Tending h) := by
  refine Only.attempt (tends_reads Repository.reads_status) fun status => ?_
  split
  · exact Only.attempt (tends_keeps (Repository.keeps_clearPending : Repository.Keeps h none _))
      fun _ => trivial
  split
  · trivial
  refine Only.attempt (tends_reads Repository.reads_seed) fun seed => ?_
  cases seed with
  | none => exact Only.attempt (Only.lift (tends_notify _)) fun _ => trivial
  | some seed => exact tends_submitReveal seed

theorem tends_processReveal (s : Settings) (h : Hash) : (processReveal s h).Only (Request.Tending h) := by
  refine (tends_reveal s h).bind fun outcome => ?_
  rcases outcome with cause | _ | _ | _
  · exact Only.bind (tends_notify _) fun _ => tends_ask .defers
  · trivial
  · trivial
  · exact tends_ask .defers

theorem tends_settleCommit (receipt : Option TxOutcome) :
    (settleCommit h receipt).run.Only (Request.Tending h) := by
  have hset : (discard (repository (Repository.setStatus h .pendingReveal))).run.Only (Request.Tending h) :=
    Only.attempt (tends_keeps (Repository.keeps_setStatus _)) fun _ => trivial
  rcases receipt with _ | ⟨block, _ | _⟩
  · exact Only.attempt (Only.lift (tends_notify _)) fun _ => Only.attempt hset fun _ => trivial
  · refine Only.attempt (Only.lift (tends_notify _)) fun _ => ?_
    exact Only.attempt (tends_keeps (Repository.keeps_finish .abandoned)) fun _ => trivial
  · cases block with
    | none => exact Only.attempt hset fun _ => trivial
    | some b =>
      refine Only.attempt (tends_keeps (Repository.keeps_setCommitBlock b)) fun _ => ?_
      exact Only.attempt hset fun _ => trivial

theorem tends_answerCommit (answer : Except ChainError TxHash) :
    (answerCommit s h answer).run.Only (Request.Tending h) := by
  cases answer with
  | error cause =>
    refine Only.attempt (Only.lift (tends_notify _)) fun _ => ?_
    exact Only.attempt (tends_keeps (Repository.keeps_finish .abandoned)) fun _ => trivial
  | ok tx =>
    have hstore : Repository.Keeps h none (Repository.storeTx h tx) := ⟨.writes (by decide), fun _ => trivial⟩
    refine Only.attempt (tends_keeps hstore) fun _ => ?_
    refine Only.attempt (Only.attempt (tends_keeps (Repository.keeps_setStatus _)) fun _ => trivial) fun _ => ?_
    refine Only.attempt (Only.lift (tends_notify _)) fun _ => ?_
    exact Only.attempt (Only.lift (tends_confirm tx)) fun receipt => tends_settleCommit receipt

theorem tends_offer (seed : Seed) : (offer s seed h).run.Only (Request.Tending h) := by
  refine Only.attempt (tends_keeps (Repository.keeps_storeSeed seed)) fun _ => ?_
  refine Only.attempt (Only.attempt (tends_keeps Repository.keeps_markPending) fun _ => trivial) fun _ => ?_
  refine Only.attempt (Only.lift (tends_submit rfl)) fun answer => ?_
  have hanswer := tends_answerCommit (s := s) (h := h) answer
  cases answer <;> exact hanswer

end Requests

section Told

/-- What has been sent. -/
def sends (t : Transcript interface) : List Chain.Submission :=
  t.filterMap fun
    | ⟨.chain (.submit what _), _⟩ => some what
    | _ => none

def puts (t : Transcript interface) : List Hash :=
  t.flatMap fun
    | ⟨.memory (.defer hashes), _⟩ => hashes
    | _ => []

def mined (t : Transcript interface) : Bool :=
  t.any fun
    | ⟨.receipt _ _ _, some ⟨_, true⟩⟩ => true
    | _ => false

@[simp] theorem sends_append (t u : Transcript interface) : sends (t ++ u) = sends t ++ sends u :=
  List.filterMap_append

@[simp] theorem puts_append (t u : Transcript interface) : puts (t ++ u) = puts t ++ puts u :=
  List.flatMap_append

@[simp] theorem mined_append (t u : Transcript interface) : mined (t ++ u) = (mined t || mined u) :=
  List.any_append

def Request.Idle : Request → Prop
  | .chain (.submit _ _) | .receipt _ _ _ | .memory (.defer _) => False
  | _ => True

structure Uneventful (t : Transcript interface) : Prop where
  sends : sends t = []
  puts : puts t = []
  mined : mined t = false

theorem Uneventful.append (ht : Uneventful t) (hu : Uneventful u) : Uneventful (t ++ u) where
  sends := by rw [sends_append, ht.sends, hu.sends]; rfl
  puts := by rw [puts_append, ht.puts, hu.puts]; rfl
  mined := by rw [mined_append, ht.mined, hu.mined]; rfl

theorem uneventful_of_idle (ht : ∀ x ∈ t, x.request.Idle) : Uneventful t where
  sends := by
    refine List.filterMap_eq_nil_iff.2 fun x hx => ?_
    have hidle := ht x hx
    split
    · exact hidle.elim
    · rfl
  puts := by
    refine List.flatMap_eq_nil_iff.2 fun x hx => ?_
    have hidle := ht x hx
    split
    · exact hidle.elim
    · rfl
  mined := by
    refine List.any_eq_false.2 fun x hx => ?_
    have hidle := ht x hx
    split
    · exact hidle.elim
    · simp

theorem Uneventful.of_reaches {q : Activity α} (hp : p.Only Request.Idle) (h : p.Reaches t q) : Uneventful t :=
  uneventful_of_idle (Only.of_reaches hp h)

theorem idle_repository (a : Repository.Action α) : (repository a).run.Only Request.Idle :=
  only_repository (fun _ => trivial) a

theorem coversSending_idle : CoversSending Request.Idle :=
  ⟨fun _ => trivial, fun _ => trivial, fun _ => trivial, fun _ => trivial, fun _ => trivial⟩

theorem about_of_tending {q : Activity α} (hp : p.Only (Request.Tending h)) (hreach : p.Reaches t q) :
    (∀ what ∈ sends t, subject what = some h) ∧ ∀ g ∈ puts t, g = h := by
  have htends := Only.of_reaches hp hreach
  constructor
  · intro what hwhat
    obtain ⟨x, hx, hsent⟩ := List.mem_filterMap.1 hwhat
    have hr := htends x hx
    split at hsent
    · cases hsent
      cases hr with
      | notes noting => cases noting
      | sends nonce about => exact about
    · cases hsent
  · intro g hg
    obtain ⟨x, hx, hput⟩ := List.mem_flatMap.1 hg
    have hr := htends x hx
    split at hput
    · cases hr with
      | notes noting => cases noting
      | defers => exact List.mem_singleton.1 hput
    · cases hput

structure Sent (what : Chain.Submission) (answer : Except ChainError TxHash) (t : Transcript interface) :
    Prop where
  sends : sends t = [what]
  puts : puts t = []
  mined : mined t = false
  answered : ∃ nonce, ⟨.chain (.submit what nonce), answer⟩ ∈ t
  once : ∀ x ∈ t, x.request.Idle ∨ ∃ nonce, x = ⟨.chain (.submit what nonce), answer⟩

/-- How a transaction has fared: it was refused, or it was waited for, and its receipt tells whether it succeeded. -/
inductive Fared (what : Chain.Submission) (t : Transcript interface) : Bool → Prop
  | refused {nonce : Word} {cause : ChainError}
    (answered : ⟨.chain (.submit what nonce), .error cause⟩ ∈ t) : Fared what t false
  | awaited {nonce : Word} {tx : TxHash} {poll timeout : Nat} {receipt : Option TxOutcome}
    (accepted : ⟨.chain (.submit what nonce), .ok tx⟩ ∈ t) (told : ⟨.receipt tx poll timeout, receipt⟩ ∈ t) :
    Fared what t (receipt.any (·.success))

theorem Fared.mono {what : Chain.Submission} {succeeded : Bool} (hsub : t ⊆ u) (ht : Fared what t succeeded) :
    Fared what u succeeded := by
  cases ht with
  | refused answered => exact .refused (hsub answered)
  | awaited accepted told => exact .awaited (hsub accepted) (hsub told)

theorem sent_between {what : Chain.Submission} {answer : Except ChainError TxHash} {nonce : Word}
    (ht : ∀ x ∈ t, x.request.Idle) (hu : ∀ x ∈ u, x.request.Idle) :
    Sent what answer (t ++ ⟨.chain (.submit what nonce), answer⟩ :: u) where
  sends := by
    rw [sends_append, (uneventful_of_idle ht).sends]
    exact congrArg (what :: ·) (uneventful_of_idle hu).sends
  puts := by
    rw [puts_append, (uneventful_of_idle ht).puts]
    exact (uneventful_of_idle hu).puts
  mined := by
    rw [mined_append, (uneventful_of_idle ht).mined]
    exact (uneventful_of_idle hu).mined
  answered := ⟨nonce, by simp⟩
  once x hx := by
    rcases List.mem_append.1 hx with hx | hx
    · exact .inl (ht x hx)
    rcases List.mem_cons.1 hx with rfl | hx
    · exact .inr ⟨nonce, rfl⟩
    · exact .inl (hu x hx)

theorem told_submit {what : Chain.Submission} {answer : Except ChainError TxHash}
    (h : (submit s what).Reaches t (.done answer)) : Sent what answer t := by
  obtain ⟨t₁, t₂, observed, rfl, hread, htook⟩ := Reaches.of_bind h
  obtain ⟨t₃, t₄, nonce, rfl, htaken, hsent⟩ := Reaches.of_bind htook
  have hbefore : ∀ x ∈ t₁ ++ t₃, x.request.Idle := by
    intro x hx
    rcases List.mem_append.1 hx with hx | hx
    · exact Only.of_reaches (only_observedCount coversSending_idle) hread x hx
    · exact Only.of_reaches (only_takeNonce coversSending_idle observed) htaken x hx
  cases hsent with
  | @asked _ _ given after _ hrest =>
    rw [← List.append_assoc]
    cases given with
    | ok tx =>
      cases hrest
      exact sent_between hbefore nofun
    | error cause =>
      have hgone :
          ((releaseNonce nonce).bind fun _ => .done (.error cause)).Reaches after (.done answer) := hrest
      obtain ⟨t₅, t₆, ⟨⟩, rfl, hreleased, hend⟩ := Reaches.of_bind hgone
      cases hend
      rw [List.append_nil]
      exact sent_between hbefore (Only.of_reaches (only_releaseNonce coversSending_idle nonce) hreleased)

theorem told_confirm {tx : TxHash} {receipt : Option TxOutcome} (h : (confirm s tx).Reaches t (.done receipt)) :
    t = [⟨.receipt tx s.timings.receiptPoll s.timings.receiptTimeout, receipt⟩] := by
  unfold confirm awaitReceipt at h
  split at h
  · cases h with
    | @asked _ _ never => exact nomatch never
  · cases h with
    | asked hrest =>
      cases hrest
      rfl

end Told

section Runs

variable {O : Shared → Shared → Prop} {σ τ : Shared}

theorem meanwhile_amid {r : Request} (h : (amid O).Meanwhile r σ τ) : O σ τ ∨ τ = σ := by
  dsimp only at h
  split at h
  · exact .inl h
  · exact .inr h

theorem get?_of_tending (hO : ∀ σ τ, O σ τ → τ.store = σ.store) (hp : p.Only (Request.Tending h))
    (hends : p.EndsAfter (amid O) σ t a τ) {k : Bytes} (hk : ∀ field, k ≠ key field h) :
    τ.store.get? k = σ.store.get? k := by
  refine hends.carried (R := fun σ τ : Shared => τ.store.get? k = σ.store.get? k) (fun _ => rfl)
    (fun h₁ h₂ => h₂.trans h₁) (fun {r a σ τ υ} hr hmeanwhile hserved => ?_) hp
  have hsame : τ.store = σ.store := (meanwhile_amid hmeanwhile).elim (hO σ τ) (congrArg Shared.store)
  rw [← hsame]
  rcases hserved.store with hstill | ⟨c, rfl, -⟩
  · rw [hstill]
  · cases hr with
    | notes noting => exact noting.touching.get?_eq hserved hk

theorem Request.Tending.memory {r : Request} {a : r.Answer} (hr : r.Tending h) (hserved : Served r a σ τ) :
    τ.memory.queue = σ.memory.queue ∧ τ.memory.deferred = σ.memory.deferred ++ puts [⟨r, a⟩] := by
  have still {r' : Request} {a' : r'.Answer} (hsame : τ.memory = σ.memory) (hputs : puts [⟨r', a'⟩] = []) :
      τ.memory.queue = σ.memory.queue ∧ τ.memory.deferred = σ.memory.deferred ++ puts [⟨r', a'⟩] := by
    rw [hsame, hputs, List.append_nil]
    exact ⟨rfl, rfl⟩
  cases hr with
  | notes noting =>
    refine still (noting.memory hserved) ?_
    cases noting <;> rfl
  | takes count =>
    obtain ⟨-, rfl⟩ := hserved
    show (Memory.perform (.takeNonce count) σ.memory).2.queue = _ ∧ (Memory.perform _ _).2.deferred = _ ++ []
    rw [List.append_nil, Memory.perform]
    split <;> exact ⟨rfl, rfl⟩
  | releases nonce =>
    obtain ⟨-, rfl⟩ := hserved
    show (Memory.perform (.releaseNonce nonce) σ.memory).2.queue = _ ∧ (Memory.perform _ _).2.deferred = _ ++ []
    rw [List.append_nil, Memory.perform]
    split <;> exact ⟨rfl, rfl⟩
  | defers =>
    obtain ⟨-, rfl⟩ := hserved
    exact ⟨rfl, rfl⟩
  | aborts f => exact a.elim
  | _ => exact still (congrArg Shared.memory hserved) rfl

/-- To the queue such a task does nothing, so that it comes of what the others do to it. -/
theorem queue_of_tending {R : RevealQueue → RevealQueue → Prop} (refl : ∀ q, R q q)
    (trans : ∀ {q₁ q₂ q₃}, R q₁ q₂ → R q₂ q₃ → R q₁ q₃) (hO : ∀ σ τ, O σ τ → R σ.memory.queue τ.memory.queue)
    (hp : p.Only (Request.Tending h)) (hends : p.EndsAfter (amid O) σ t a τ) :
    R σ.memory.queue τ.memory.queue := by
  refine hends.carried (R := fun σ τ : Shared => R σ.memory.queue τ.memory.queue)
    (fun σ : Shared => refl σ.memory.queue) trans (fun {r a σ τ υ} hr hmeanwhile hserved => ?_) hp
  rw [(hr.memory hserved).1]
  rcases meanwhile_amid hmeanwhile with hothers | rfl
  · exact hO σ τ hothers
  · exact refl _

theorem deferred_of_tending (hO : ∀ σ τ, O σ τ → τ.memory.deferred = σ.memory.deferred)
    (hp : p.Only (Request.Tending h)) (hends : p.EndsAfter (amid O) σ t a τ) :
    τ.memory.deferred = σ.memory.deferred ++ puts t := by
  refine hends.logged (R := fun (σ : Shared) t (τ : Shared) => τ.memory.deferred = σ.memory.deferred ++ puts t)
    (fun σ : Shared => (List.append_nil σ.memory.deferred).symm)
    (fun {r answer u σ υ ω τ} hr hmeanwhile hserved hrest => ?_) hp
  have hsame : υ.memory.deferred = σ.memory.deferred :=
    (meanwhile_amid hmeanwhile).elim (hO σ υ) (congrArg fun σ : Shared => σ.memory.deferred)
  rw [hrest, (hr.memory hserved).2, hsame, List.append_assoc, ← puts_append]
  rfl

def Request.Storeless : Request → Prop
  | .store _ => False
  | _ => True

theorem coversSending_storeless : CoversSending Request.Storeless :=
  ⟨fun _ => trivial, fun _ => trivial, fun _ => trivial, fun _ => trivial, fun _ => trivial⟩

theorem store_of_storeless (hO : ∀ σ τ, O σ τ → τ.store = σ.store) (hp : p.Only Request.Storeless)
    (hends : p.EndsAfter (amid O) σ t a τ) : τ.store = σ.store := by
  refine hends.carried (R := fun σ τ : Shared => τ.store = σ.store) (fun _ => rfl) (fun h₁ h₂ => h₂.trans h₁)
    (fun {r a σ τ υ} hr hmeanwhile hserved => ?_) hp
  refine Eq.trans ?_ ((meanwhile_amid hmeanwhile).elim (hO σ τ) (congrArg Shared.store))
  rcases hserved.store with hstill | ⟨c, rfl, -⟩
  · exact hstill
  · exact hr.elim

end Runs

end CommitReveal.Agent
