import CommitReveal.Proofs.Completion

/-! How issuing a commit ends, whatever fails on the way. Once the transaction is out, the hash stays pending with its
seed unless the commit is seen to have been refused or reverted. -/
namespace CommitReveal.Repository

open Program
open Store (Backend StoreError)

variable {fields fields' : List Field} {h : Hash} {b b' b'' : Backend} {c : Card}

inductive Request.Altering (fields : List Field) (h : Hash) : Request → Prop
  | reads {r : Request} (reading : r.Reading) : Altering fields h r
  | sets {field : Field} (value : Bytes) (listed : field ∈ fields) :
    Altering fields h (.call (.set (key field h) value))
  | deletes {field : Field} (listed : field ∈ fields) : Altering fields h (.call (.delete (key field h)))

/-- All entries but these of the hash are as they were. -/
def Alters (fields : List Field) (h : Hash) (b b' : Backend) : Prop :=
  ∀ k, (∀ field ∈ fields, k ≠ key field h) → b'.get? k = b.get? k

theorem Alters.of_eq (heq : b' = b) : Alters fields h b b' :=
  fun _ _ => heq ▸ rfl

theorem Alters.trans (h₁ : Alters fields h b b') (h₂ : Alters fields h b' b'') : Alters fields h b b'' :=
  fun k hk => (h₂ k hk).trans (h₁ k hk)

theorem Alters.weaken (hsub : fields ⊆ fields') (ha : Alters fields h b b') : Alters fields' h b b' :=
  fun k hk => ha k fun field hfield => hk field (hsub hfield)

theorem Alters.field {field : Field} (hfield : field ∉ fields) (ha : Alters fields h b b') :
    b'.get? (key field h) = b.get? (key field h) :=
  ha _ fun _ hlisted heq => hfield ((key_inj.1 heq).1 ▸ hlisted)

theorem Request.Altering.alters {call : Store.Call}
    (hcall : (Request.call call).Altering fields h) (b : Backend) :
    Alters fields h b (b.perform call).2 := by
  intro k hk
  cases hcall with
  | reads reading =>
    cases call with
    | get k' => rw [b.perform_get]
    | _ => exact reading.elim
  | sets value listed => rw [Backend.get?_set, if_neg (hk _ listed)]
  | deletes listed => rw [Backend.get?_delete, if_neg (hk _ listed)]

theorem altering_setStatus (st : Status) : (setStatus h st).run.Only (Request.Altering [.record] h) :=
  only_setStatus (fun _ => .reads) (fun value => .sets value List.mem_cons_self) st

theorem altering_setCommitBlock (block : Word) :
    (setCommitBlock h block).run.Only (Request.Altering [.record] h) :=
  only_setCommitBlock (fun _ => .reads) (fun value => .sets value List.mem_cons_self) block

theorem altering_storeTx (tx : TxHash) : (storeTx h tx).run.Only (Request.Altering [.tx] h) :=
  ⟨.sets tx.bytes List.mem_cons_self, fun _ => trivial⟩

theorem Request.Keeping.altering {seed : Option Seed} {r : Request} (hr : r.Keeping h seed) :
    r.Altering [.seed, .tx, .record, .pending] h := by
  cases hr with
  | reads reading => exact .reads reading
  | stores given => exact .sets _ (by decide)
  | @writes field value other => exact .sets value (by cases field <;> decide)
  | unmarks => exact .deletes (by decide)

theorem altering_finish (st : Status) :
    (do clearPending h; discard <| setStatus h st : Action Unit).run.Only
      (Request.Altering [.pending, .record] h) :=
  only_finish (fun _ => .reads) (fun value => .sets value (by decide)) (.deletes (by decide)) st

theorem peek_tx {tx : TxHash} (hget : b.get? (key .tx h) = some tx.bytes) :
    peek (Repository.tx h) b = .ok (some tx) := by
  unfold Repository.tx getHash
  rw [peek_get_bind, hget]
  simp only [hashOfBytes_bytes]
  rfl

theorem tries_storeTx {m : Tally} (hc : Legible m.store h c) (tx : TxHash) :
    Tries (storeTx h tx) (fun _ b => Legible b h c ∧ b.get? (key .tx h) = some tx.bytes) m := by
  refine tries_call ⟨hc.of_same fun field hfield => get?_set_field hfield _ h h tx.bytes, get?_set_self ..⟩

end CommitReveal.Repository

namespace CommitReveal.Agent

open Program
open Repository (Field key key_inj peek Card Legible Alters Tries)
open Store (Backend)

variable {s : Settings} {h : Hash} {seed : Seed} {O : Shared → Shared → Prop} {σ τ : Shared}
  {t u : Transcript interface} {α β : Type} {fields : List Field}

section Filing

/-- A part that alters these entries of the hash at most, and comes to what is told unless a call fails. -/
def Files (O : Shared → Shared → Prop) (fields : List Field) (h : Hash) (x : Attempt α) (Q : α → Backend → Prop)
    (σ : Shared) : Prop :=
  ∀ t result τ, x.run.EndsAfter (amid O) σ t result τ → Alters fields h σ.store τ.store ∧
    (∀ y ∈ t, y.request.Idle) ∧
    Outcome (fun a b => Q a b ∧ Unfailed t) (fun _ _ => ∃ y ∈ t, storeFailed y = true) result τ.store

theorem files_repository {x : Repository.Action α} {Q : α → Backend → Prop}
    (halters : x.run.Only (Repository.Request.Altering fields h)) (hx : Tries x Q ⟨σ.store, false⟩) :
    Files O fields h (repository x) Q σ := by
  intro t result τ hends
  refine ⟨?_, Only.of_reaches (idle_repository x) hends.reaches, endsAfter_repository (prompt_amid O) hx hends⟩
  have hcalls : (repository x).run.Only fun r : Request => ∃ q, r = .store q ∧ q.Altering fields h :=
    Only.bind (Only.interpret (halters.imp fun q hq => ⟨⟨q, rfl, hq⟩, fun _ => trivial⟩)) fun _ => trivial
  refine hends.carried (R := fun σ τ : Shared => Alters fields h σ.store τ.store) (fun _ => .of_eq rfl)
    Alters.trans (fun {r a σ τ υ} hr hmeanwhile hserved => ?_) hcalls
  obtain ⟨q, rfl, hq⟩ := hr
  obtain rfl := (prompt_amid O).meanwhile rfl hmeanwhile
  rcases hserved.store with hsame | ⟨c, heq, hstore⟩
  · exact .of_eq hsame
  · obtain rfl := Request.store.inj heq
    rw [hstore]
    exact hq.alters τ.store

theorem files_discard {x : Attempt α} {P : Backend → Prop} (hx : Files O fields h x (fun _ => P) σ) :
    Files O fields h (discard x) (fun _ => P) σ := by
  intro t result τ hends
  rcases hends.of_attempt with ⟨cause, rfl, hfails⟩ | ⟨t₁, t₂, a, υ, rfl, hdoes, hend⟩
  · exact hx t _ τ hfails
  · obtain ⟨rfl, rfl, rfl⟩ := endsAfter_done.1 hend
    rw [List.append_nil]
    exact hx t₁ _ _ hdoes

theorem Files.andThen {x : Attempt α} {f : α → Attempt β} {Q : α → Backend → Prop} {result : Except AgentError β}
    (hx : Files O fields h x Q σ) (hends : (x >>= f).run.EndsAfter (amid O) σ t result τ) :
    (∃ cause, result = .error cause ∧ Alters fields h σ.store τ.store ∧ (∀ y ∈ t, y.request.Idle) ∧
      ∃ y ∈ t, storeFailed y = true) ∨
    ∃ t₁ t₂ a υ, t = t₁ ++ t₂ ∧ Alters fields h σ.store υ.store ∧ (∀ y ∈ t₁, y.request.Idle) ∧ Unfailed t₁ ∧
      Q a υ.store ∧ (f a).run.EndsAfter (amid O) υ t₂ result τ := by
  rcases hends.of_attempt with ⟨cause, rfl, hfails⟩ | ⟨t₁, t₂, a, υ, rfl, hdoes, hrest⟩
  · obtain ⟨halters, hidle, hfailed⟩ := hx _ _ _ hfails
    exact .inl ⟨cause, rfl, halters, hidle, hfailed⟩
  · obtain ⟨halters, hidle, hQ, hfair⟩ := hx _ _ _ hdoes
    exact .inr ⟨t₁, t₂, a, υ, rfl, halters, hidle, hfair, hQ, hrest⟩

end Filing

section Settling

def standing (seed : Seed) (st : Status) (block : Option Word) (time : Int64) : Card :=
  ⟨some seed, some ⟨st, block, time⟩, true⟩

def abandoned (seed : Seed) (time : Int64) : Card :=
  ⟨some seed, some ⟨.abandoned, none, time⟩, false⟩

inductive Sealed (h : Hash) (seed : Seed) (receipt : Option TxOutcome) (t : Transcript interface) (b : Backend) :
    Except AgentError (Option Hash) → Prop
  | issued (time : Int64) (unreverted : receipt.all (·.success) = true)
    (legible : Legible b h (standing seed .pendingReveal (receipt.bind (·.block)) time)) :
    Sealed h seed receipt t b (.ok (some h))
  | dropped (time : Int64) (reverted : receipt.all (·.success) = false)
      (legible : Legible b h (abandoned seed time)) :
    Sealed h seed receipt t b (.ok none)
  | failed {cause : AgentError} (fault : ∃ y ∈ t, storeFailed y = true) :
      Sealed h seed receipt t b (.error cause)

def settling (receipt : Option TxOutcome) : List Field :=
  if receipt.all (·.success) then [.record] else [.pending, .record]

theorem settling_subset (receipt : Option TxOutcome) : settling receipt ⊆ [.pending, .record] := by
  unfold settling
  split <;> decide

theorem files_setStatus {st : Status} {block : Option Word} {time : Int64} (hopen : st.isTerminal = false)
    (hc : Legible σ.store h (standing seed st block time)) (st' : Status) :
    Files O [.record] h (discard (repository (Repository.setStatus h st')))
      (fun _ b => ∃ time', Legible b h (standing seed st' block time')) σ := by
  refine files_discard (files_repository (Repository.altering_setStatus _) ?_)
  refine (Repository.tries_setStatus hc st').mono fun _ b ⟨time', hb⟩ => ⟨time', ?_⟩
  have hcard : (standing seed st block time).setStatus st' time' = standing seed st' block time' := by
    simp [standing, Card.setStatus, hopen]
  rwa [hcard] at hb

theorem endsAfter_reopen {st : Status} {block : Option Word} {time : Int64}
    {result : Except AgentError (Option Hash)}
    (hopen : st.isTerminal = false) (hc : Legible σ.store h (standing seed st block time))
    (hends : (do discard <| repository (Repository.setStatus h .pendingReveal); return some h :
      Attempt (Option Hash)).run.EndsAfter (amid O) σ t result τ) :
    Alters [.record] h σ.store τ.store ∧ ((∃ cause, result = .error cause ∧ ∃ y ∈ t, storeFailed y = true) ∨
      result = .ok (some h) ∧ ∃ time', Legible τ.store h (standing seed .pendingReveal block time')) := by
  rcases (files_setStatus hopen hc .pendingReveal).andThen hends with
    ⟨cause, rfl, halters, -, hfault⟩ | ⟨t₁, t₂, a, υ, rfl, halters, -, -, hcard, hend⟩
  · exact ⟨halters, .inl ⟨cause, rfl, hfault⟩⟩
  · obtain ⟨rfl, rfl, rfl⟩ := endsAfter_done.1 hend
    exact ⟨halters, .inr ⟨rfl, hcard⟩⟩

theorem endsAfter_abandon {st : Status} {time : Int64} {result : Except AgentError (Option Hash)}
    (hopen : st.isTerminal = false) (hc : Legible σ.store h (standing seed st none time))
    (hends : (do repository (Repository.markAbandoned h); return none :
      Attempt (Option Hash)).run.EndsAfter (amid O) σ t result τ) :
    Alters [.pending, .record] h σ.store τ.store ∧ ((∃ cause, result = .error cause ∧ ∃ y ∈ t, storeFailed y = true) ∨
      result = .ok none ∧ ∃ time', Legible τ.store h (abandoned seed time')) := by
  have hgiveUp : Files O [.pending, .record] h (repository (Repository.markAbandoned h))
      (fun _ b => ∃ time', Legible b h (abandoned seed time')) σ := by
    refine files_repository (Repository.altering_finish _) ?_
    refine (Repository.tries_finish hc .abandoned).mono fun _ b ⟨time', hb⟩ => ⟨time', ?_⟩
    have hcard : (standing seed st none time).finish .abandoned time' = abandoned seed time' := by
      simp [standing, abandoned, Card.finish, Card.clearPending, Card.setStatus, hopen]
    rwa [hcard] at hb
  rcases hgiveUp.andThen hends with
    ⟨cause, rfl, halters, -, hfault⟩ | ⟨t₁, t₂, a, υ, rfl, halters, -, -, hcard, hend⟩
  · exact ⟨halters, .inl ⟨cause, rfl, hfault⟩⟩
  · obtain ⟨rfl, rfl, rfl⟩ := endsAfter_done.1 hend
    exact ⟨halters, .inr ⟨rfl, hcard⟩⟩

theorem endsAfter_settleCommit {receipt : Option TxOutcome} {time : Int64}
    {result : Except AgentError (Option Hash)} (hc : Legible σ.store h (standing seed .committed none time))
    (hends : (settleCommit h receipt).run.EndsAfter (amid O) σ t result τ) :
    Alters (settling receipt) h σ.store τ.store ∧ Sealed h seed receipt t τ.store result := by
  rcases receipt with _ | ⟨block, _ | _⟩
  · obtain ⟨u, rfl, hreopen⟩ := past_notify (prompt_amid O) hends
    obtain ⟨halters, ⟨cause, rfl, y, hy, hfailed⟩ | ⟨rfl, time', hcard⟩⟩ := endsAfter_reopen rfl hc hreopen
    · exact ⟨halters, .failed ⟨y, List.mem_cons_of_mem _ hy, hfailed⟩⟩
    · exact ⟨halters, .issued time' rfl hcard⟩
  · obtain ⟨u, rfl, habandon⟩ := past_notify (prompt_amid O) hends
    obtain ⟨halters, ⟨cause, rfl, y, hy, hfailed⟩ | ⟨rfl, time', hcard⟩⟩ := endsAfter_abandon rfl hc habandon
    · exact ⟨halters, .failed ⟨y, List.mem_cons_of_mem _ hy, hfailed⟩⟩
    · exact ⟨halters, .dropped time' rfl hcard⟩
  cases block with
  | none =>
    obtain ⟨halters, ⟨cause, rfl, hfault⟩ | ⟨rfl, time', hcard⟩⟩ := endsAfter_reopen rfl hc hends
    · exact ⟨halters, .failed hfault⟩
    · exact ⟨halters, .issued time' rfl hcard⟩
  | some block =>
    have hnote : Files O [.record] h (repository (Repository.setCommitBlock h block))
        (fun _ b => ∃ time', Legible b h (standing seed .committed (some block) time')) σ := by
      refine files_repository (Repository.altering_setCommitBlock _) ?_
      refine (Repository.tries_setCommitBlock hc block).mono fun _ b ⟨_, hb⟩ => ⟨time, ?_⟩
      rwa [Card.setCommitBlock_eq] at hb
    rcases hnote.andThen hends with ⟨cause, rfl, halters, -, hfault⟩ |
      ⟨t₁, t₂, ⟨⟩, υ, rfl, hnoted, -, -, ⟨time', hc'⟩, hreopen⟩
    · exact ⟨halters, .failed hfault⟩
    · obtain ⟨halters, ⟨cause, rfl, y, hy, hfailed⟩ | ⟨rfl, time'', hcard⟩⟩ := endsAfter_reopen rfl hc' hreopen
      · exact ⟨hnoted.trans halters, .failed ⟨y, List.mem_append_right t₁ hy, hfailed⟩⟩
      · exact ⟨hnoted.trans halters, .issued time'' rfl hcard⟩

end Settling

section Answering

variable (hO : ∀ σ τ, O σ τ → τ.store = σ.store)

/-- How the node's answer to the commit is dealt with in the end. -/
inductive Replied (h : Hash) (seed : Seed) (answer : Except ChainError TxHash) (t : Transcript interface)
    (b : Backend) : Except AgentError (Option Hash) → Prop
  | issued {tx : TxHash} {poll timeout : Nat} {receipt : Option TxOutcome} (time : Int64)
      (accepted : answer = .ok tx)
    (told : ⟨.receipt tx poll timeout, receipt⟩ ∈ t) (unreverted : receipt.all (·.success) = true)
    (stored : b.get? (key .tx h) = some tx.bytes)
    (legible : Legible b h (standing seed .pendingReveal (receipt.bind (·.block)) time)) :
    Replied h seed answer t b (.ok (some h))
  | refused {cause : ChainError} (time : Int64) (refused : answer = .error cause)
    (legible : Legible b h (abandoned seed time)) : Replied h seed answer t b (.ok none)
  | reverted {tx : TxHash} {poll timeout : Nat} {block : Option Word} (time : Int64) (accepted : answer = .ok tx)
    (told : ⟨.receipt tx poll timeout, some ⟨block, false⟩⟩ ∈ t) (legible : Legible b h (abandoned seed time)) :
    Replied h seed answer t b (.ok none)
  | failed {cause : AgentError} (fault : ∃ y ∈ t, storeFailed y = true) :
      Replied h seed answer t b (.error cause)

/-- A receipt has come that tells of a failure. -/
def Reverted (t : Transcript interface) : Prop :=
  ∃ tx poll timeout block, ⟨.receipt tx poll timeout, some ⟨block, false⟩⟩ ∈ t

include hO

theorem endsAfter_answerCommit {answer : Except ChainError TxHash} {time : Int64}
    {result : Except AgentError (Option Hash)} (hc : Legible σ.store h (standing seed .created none time))
    (hends : (answerCommit s h answer).run.EndsAfter (amid O) σ t result τ) :
    Replied h seed answer t τ.store result ∧ Alters [.tx, .pending, .record] h σ.store τ.store ∧
      (∀ tx, answer = .ok tx → ¬Reverted t → Alters [.tx, .record] h σ.store τ.store) := by
  cases answer with
  | error cause =>
    obtain ⟨u, rfl, habandon⟩ := past_notify (prompt_amid O) hends
    obtain ⟨halters, hend⟩ := endsAfter_abandon rfl hc habandon
    refine ⟨?_, halters.weaken (by decide), nofun⟩
    rcases hend with ⟨cause, rfl, y, hy, hfailed⟩ | ⟨rfl, time', hcard⟩
    · exact .failed ⟨y, List.mem_cons_of_mem _ hy, hfailed⟩
    · exact .refused time' rfl hcard
  | ok tx =>
    have hstore : Files O [.tx] h (repository (Repository.storeTx h tx))
        (fun _ b => Legible b h (standing seed .created none time) ∧ b.get? (key .tx h) = some tx.bytes) σ :=
      files_repository (Repository.altering_storeTx tx) (Repository.tries_storeTx hc tx)
    rcases hstore.andThen hends with ⟨cause, rfl, halters, -, hfault⟩ |
      ⟨t₁, t₂, ⟨⟩, υ, rfl, hstored, -, -, ⟨hc₁, htx₁⟩, hnext⟩
    · exact ⟨.failed hfault, halters.weaken (by decide), fun _ _ _ => halters.weaken (by decide)⟩
    rcases (files_setStatus rfl hc₁ .committed).andThen hnext with ⟨cause, rfl, halters, -, y, hy, hfailed⟩ |
      ⟨t₃, t₄, ⟨⟩, ω, rfl, hcommitted, -, -, ⟨time', hc₂⟩, hlast⟩
    · have hboth : Alters [.tx, .record] h σ.store τ.store :=
        (hstored.weaken (by decide)).trans (halters.weaken (by decide))
      exact ⟨.failed ⟨y, List.mem_append_right t₁ hy, hfailed⟩, hboth.weaken (by decide), fun _ _ _ => hboth⟩
    have hboth : Alters [.tx, .record] h σ.store ω.store :=
      (hstored.weaken (by decide)).trans (hcommitted.weaken (by decide))
    have htx₂ : ω.store.get? (key .tx h) = some tx.bytes := (hcommitted.field (by decide)).trans htx₁
    obtain ⟨t₅, rfl, hconfirm⟩ := past_notify (prompt_amid O) hlast
    rcases hconfirm.of_attempt with ⟨cause, rfl, hfails⟩ | ⟨t₆, t₇, receipt, ρ, rfl, hreceipt, hsettle⟩
    · obtain ⟨_, hno, -⟩ := hfails.of_lift
      cases hno
    obtain ⟨_, ⟨⟩, hreceipt⟩ := hreceipt.of_lift
    have hρ : ρ.store = ω.store := store_of_storeless hO (only_confirm coversSending_storeless trivial) hreceipt
    obtain rfl := told_confirm hreceipt.reaches
    obtain ⟨halters, hsettled⟩ := endsAfter_settleCommit (hρ ▸ hc₂) hsettle
    rw [hρ] at halters
    have htold : ⟨.receipt tx s.timings.receiptPoll s.timings.receiptTimeout, receipt⟩ ∈
        t₁ ++ (t₃ ++ ⟨.notify (.committed h tx), ()⟩ ::
          ([⟨.receipt tx s.timings.receiptPoll s.timings.receiptTimeout, receipt⟩] ++ t₇)) :=
      List.mem_append_right t₁ (List.mem_append_right t₃ (List.mem_cons_of_mem _ List.mem_cons_self))
    refine ⟨?_, ?_, fun _ _ hunreverted => ?_⟩
    · cases hsettled with
      | issued time'' unreverted legible =>
        have hfield : Field.tx ∉ settling receipt := fun hmem =>
          absurd (settling_subset receipt hmem) (by decide)
        exact .issued time'' rfl htold unreverted ((halters.field hfield).trans htx₂) legible
      | dropped time'' reverted legible =>
        rcases receipt with _ | ⟨block, _ | _⟩
        · cases reverted
        · exact .reverted time'' rfl htold legible
        · cases reverted
      | failed fault =>
        obtain ⟨y, hy, hfailed⟩ := fault
        exact .failed ⟨y, List.mem_append_right t₁ (List.mem_append_right t₃ (List.mem_cons_of_mem _
          (List.mem_cons_of_mem _ hy))), hfailed⟩
    · refine (hboth.weaken (by decide)).trans (halters.weaken fun field hfield => ?_)
      exact List.mem_cons_of_mem _ (settling_subset receipt hfield)
    · have hfields : settling receipt = [.record] := by
        refine if_pos ?_
        rcases receipt with _ | ⟨block, _ | _⟩
        · rfl
        · exact absurd ⟨tx, _, _, block, htold⟩ hunreverted
        · rfl
      rw [hfields] at halters
      exact hboth.trans (halters.weaken (by decide))

end Answering

section Offering

def Request.Unsending : Request → Prop
  | .chain (.submit _ _) => False
  | _ => True

theorem sends_of_unsending (ht : ∀ x ∈ t, x.request.Unsending) : sends t = [] := by
  refine List.filterMap_eq_nil_iff.2 fun x hx => ?_
  have hunsending := ht x hx
  split
  · exact hunsending.elim
  · rfl

theorem unsending_answerCommit (answer : Except ChainError TxHash) :
    (answerCommit s h answer).run.Only Request.Unsending := by
  have hcovers : CoversSending Request.Unsending :=
    ⟨fun _ => trivial, fun _ => trivial, fun _ => trivial, fun _ => trivial, fun _ => trivial⟩
  exact only_answerCommit (fun _ => trivial) (fun _ => trivial) (fun tx => only_confirm hcovers trivial) answer

/-- The node has refused the commit, or has taken it in and tells of its failure. -/
inductive TurnedDown (h : Hash) (t : Transcript interface) : Prop
  | refused {nonce : Word} {cause : ChainError}
    (answered : ⟨.chain (.submit (.commit h) nonce), .error cause⟩ ∈ t)
  | reverted {nonce : Word} {tx : TxHash} {poll timeout : Nat} {block : Option Word}
    (accepted : ⟨.chain (.submit (.commit h) nonce), .ok tx⟩ ∈ t)
    (told : ⟨.receipt tx poll timeout, some ⟨block, false⟩⟩ ∈ t)

/-- How issuing a commit to the hash of a seed may end, if the hash was not known. -/
structure Documented (h : Hash) (seed : Seed) (b : Backend) (t : Transcript interface)
    (result : Except AgentError (Option Hash)) (b' : Backend) : Prop where
  once : sends t = [] ∨ sends t = [.commit h]
  early : ∀ t₁ t₂, t = t₁ ++ t₂ → ¬Unfailed t₁ → sends t₂ = []
  faulty : ∀ cause, result = .error cause → ¬Unfailed t
  issued : ∀ g, result = .ok (some g) → g = h ∧ ∃ nonce tx poll timeout receipt time,
    ⟨.chain (.submit (.commit h) nonce), .ok tx⟩ ∈ t ∧ ⟨.receipt tx poll timeout, receipt⟩ ∈ t ∧
    receipt.all (·.success) = true ∧ peek (Repository.tx h) b' = .ok (some tx) ∧
    Legible b' h (standing seed .pendingReveal (receipt.bind (·.block)) time)
  dropped : result = .ok none → TurnedDown h t ∧ ∃ time, Legible b' h (abandoned seed time)
  owed : ∀ cause nonce tx, result = .error cause → ⟨.chain (.submit (.commit h) nonce), .ok tx⟩ ∈ t →
    ¬Reverted t → peek (Repository.seed h) b' = .ok (some seed) ∧ peek (Repository.isPending h) b' = .ok true
  kept : sends t ≠ [] → peek (Repository.seed h) b' = .ok (some seed)
  others : ∀ k, (∀ field, k ≠ key field h) → b'.get? k = b.get? k

theorem Request.Storeless.unfailed {y : Exchange interface} (hy : y.request.Storeless) :
    storeFailed y = false := by
  obtain ⟨r, a⟩ := y
  cases r with
  | store q => exact hy.elim
  | _ => rfl

theorem not_unfailed {y : Exchange interface} (hy : y ∈ t) (hfailed : storeFailed y = true) : ¬Unfailed t := by
  intro hfair
  rw [hfair y hy] at hfailed
  cases hfailed

theorem documented_unsent {b b' : Backend} {cause : AgentError} (hidle : ∀ y ∈ t, y.request.Idle)
    (hfault : ∃ y ∈ t, storeFailed y = true)
    (hothers : ∀ k, (∀ field, k ≠ key field h) → b'.get? k = b.get? k) :
    Documented h seed b t (.error cause) b' := by
  have hsends : sends t = [] := (uneventful_of_idle hidle).sends
  obtain ⟨y, hy, hfailed⟩ := hfault
  refine ⟨.inl hsends, ?_, fun _ _ => not_unfailed hy hfailed, nofun, nofun, ?_,
    fun hno => absurd hsends hno, hothers⟩
  · rintro t₁ t₂ rfl -
    rw [sends_append] at hsends
    exact (List.append_eq_nil_iff.1 hsends).2
  · intro _ nonce tx _ haccepted
    exact (hidle _ haccepted).elim

theorem documented_sent {t₁ t₂ t₃ : Transcript interface} {b b' : Backend} {answer : Except ChainError TxHash}
    {result : Except AgentError (Option Hash)} (hidle : ∀ y ∈ t₁, y.request.Idle) (hfair : Unfailed (t₁ ++ t₂))
    (hsent : Sent (.commit h) answer t₂) (hquiet : ∀ y ∈ t₃, y.request.Unsending)
    (hreplied : Replied h seed answer t₃ b' result) (hseed : peek (Repository.seed h) b' = .ok (some seed))
    (howed : ∀ tx, answer = .ok tx → ¬Reverted t₃ → peek (Repository.isPending h) b' = .ok true)
    (hothers : ∀ k, (∀ field, k ≠ key field h) → b'.get? k = b.get? k) :
    Documented h seed b (t₁ ++ t₂ ++ t₃) result b' := by
  have hsends₃ : sends t₃ = [] := sends_of_unsending hquiet
  obtain ⟨nonce, hanswered⟩ := hsent.answered
  have hin : ⟨.chain (.submit (.commit h) nonce), answer⟩ ∈ t₁ ++ t₂ ++ t₃ :=
    List.mem_append_left t₃ (List.mem_append_right t₁ hanswered)
  refine ⟨.inr ?_, ?_, ?_, ?_, ?_, ?_, fun _ => hseed, hothers⟩
  · rw [sends_append, sends_append, hsends₃, hsent.sends, (uneventful_of_idle hidle).sends]
    rfl
  · intro l₁ l₂ hl hfailed
    rcases List.append_eq_append_iff.1 hl with ⟨a, rfl, rfl⟩ | ⟨a, hfront, -⟩
    · rw [sends_append] at hsends₃
      exact (List.append_eq_nil_iff.1 hsends₃).2
    · refine absurd (fun y hy => hfair y ?_) hfailed
      rw [hfront]
      exact List.mem_append_left a hy
  · rintro cause rfl
    obtain ⟨y, hy, hfailed⟩ : ∃ y ∈ t₃, storeFailed y = true := by
      cases hreplied with
      | failed fault => exact fault
    exact not_unfailed (List.mem_append_right _ hy) hfailed
  · rintro g rfl
    cases hreplied with
    | issued time accepted told unreverted stored legible =>
      refine ⟨rfl, nonce, _, _, _, _, time, ?_, List.mem_append_right _ told, unreverted, Repository.peek_tx stored,
        legible⟩
      rw [← accepted]
      exact hin
  · rintro rfl
    cases hreplied with
    | refused time refused legible => exact ⟨.refused (refused ▸ hin), time, legible⟩
    | reverted time accepted told legible =>
      exact ⟨.reverted (accepted ▸ hin) (List.mem_append_right _ told), time, legible⟩
  · rintro cause nonce' tx rfl haccepted hunreverted
    refine ⟨hseed, howed tx ?_ fun ⟨tx', poll, timeout, block, htold⟩ =>
      hunreverted ⟨tx', poll, timeout, block, List.mem_append_right _ htold⟩⟩
    rcases List.mem_append.1 haccepted with hfront | htail
    · rcases List.mem_append.1 hfront with hbefore | hsub
      · exact (hidle _ hbefore).elim
      · rcases hsent.once _ hsub with hno | ⟨_, heq⟩
        · exact hno.elim
        · cases heq
          rfl
    · exact (hquiet _ htail).elim

theorem endsAfter_offer (hO : ∀ σ τ, O σ τ → τ.store = σ.store)
    (hnew : ∀ field, σ.store.get? (key field h) = none) {result : Except AgentError (Option Hash)}
    (hidle₀ : ∀ y ∈ u, y.request.Idle) (hfair₀ : Unfailed u)
    (hends : (offer s seed h).run.EndsAfter (amid O) σ t result τ) :
    Documented h seed σ.store (u ++ t) result τ.store := by
  have hothers : ∀ k, (∀ field, k ≠ key field h) → τ.store.get? k = σ.store.get? k :=
    fun k hk => get?_of_tending hO (tends_offer seed) hends hk
  have hstore : Files O [.seed, .tx, .record, .pending] h (repository (Repository.storeSeed h seed))
      (fun _ b => ∃ time, Legible b h ⟨some seed, some ⟨.created, none, time⟩, false⟩) σ :=
    files_repository ((Repository.keeps_storeSeed seed).imp fun _ hr => hr.altering)
      (Repository.tries_storeSeed (.of_unknown hnew) seed)
  rcases hstore.andThen hends with ⟨cause, rfl, -, hidle, y, hy, hfailed⟩ |
    ⟨t₁, t₂, ⟨⟩, υ, rfl, -, hidle₁, hfair₁, ⟨time, hc₁⟩, hnext⟩
  · exact documented_unsent (List.forall_mem_append.2 ⟨hidle₀, hidle⟩)
      ⟨y, List.mem_append_right u hy, hfailed⟩ hothers
  have hidle₁ : ∀ y ∈ u ++ t₁, y.request.Idle := List.forall_mem_append.2 ⟨hidle₀, hidle₁⟩
  rw [← List.append_assoc]
  have hmark : Files O [.seed, .tx, .record, .pending] h (discard (repository (Repository.markPending h)))
      (fun _ b => Legible b h (standing seed .created none time)) υ := by
    have hcard : Card.markPending ⟨some seed, some ⟨.created, none, time⟩, false⟩ = standing seed .created none time :=
      rfl
    rw [← hcard]
    exact files_discard (files_repository (Repository.keeps_markPending.imp fun _ hr => hr.altering)
      (Repository.tries_markPending hc₁))
  rcases hmark.andThen hnext with ⟨cause, rfl, -, hidle₂, y, hy, hfailed⟩ |
    ⟨t₂, t₃, ⟨⟩, ω, rfl, -, hidle₂, hfair₂, hc₂, hsend⟩
  · exact documented_unsent (List.forall_mem_append.2 ⟨hidle₁, hidle₂⟩) ⟨y, List.mem_append_right _ hy, hfailed⟩
      hothers
  rcases hsend.of_attempt with ⟨cause, rfl, hfails⟩ | ⟨t₃, t₄, answer, ρ, rfl, hsubmit, hrest⟩
  · obtain ⟨_, hno, -⟩ := hfails.of_lift
    cases hno
  obtain ⟨_, ⟨⟩, hsubmit⟩ := hsubmit.of_lift
  have hρ : ρ.store = ω.store :=
    store_of_storeless hO (only_submit coversSending_storeless fun _ => trivial) hsubmit
  have hanswer : (answerCommit s h answer).run.EndsAfter (amid O) ρ t₄ result τ := by
    cases answer <;> exact hrest
  obtain ⟨hreplied, halters, hfiled⟩ := endsAfter_answerCommit hO (hρ ▸ hc₂) hanswer
  have hcard : Legible ρ.store h (standing seed .created none time) := hρ ▸ hc₂
  rw [← List.append_assoc, ← List.append_assoc]
  refine documented_sent (List.forall_mem_append.2 ⟨hidle₁, hidle₂⟩) ?_ (told_submit hsubmit.reaches)
    (Only.of_reaches (unsending_answerCommit answer) hanswer.reaches) hreplied ?_ ?_ hothers
  · refine ((hfair₀.append hfair₁).append hfair₂).append fun y hy => ?_
    exact Request.Storeless.unfailed
      (Only.of_reaches (only_submit coversSending_storeless fun _ => trivial) hsubmit.reaches y hy)
  · rw [Repository.peek_seed_eq, halters.field (by decide), ← Repository.peek_seed_eq]
    exact hcard.seed
  · intro tx haccepted hunreverted
    rw [Repository.peek_isPending, (hfiled tx haccepted hunreverted).field (by decide),
      ← Repository.peek_isPending]
    exact hcard.pending

end Offering

/-- Issuing a commit comes to an end whatever fails, and unless the oracle gives no hash for the seed, or one that is
known, it ends as documented. -/
theorem issueCommit_ends_documented (s : Settings) {O : Shared → Shared → Prop}
    (hO : ∀ σ τ, O σ τ → τ.store = σ.store) (σ : Shared) :
    (s.timings.receiptPoll ≠ 0 → ∀ n, NonceWithin n σ → n + 1 < UInt64.size →
      (issueCommit s).run.Upholds (counting n) (fun _ _ => True) σ) ∧
    ∀ t result τ, (issueCommit s).run.EndsAfter (amid O) σ t result τ → ∃ entropy answer u,
      t = ⟨.entropy, entropy⟩ :: ⟨.chain (.computeCommitHash (seedOf s.agent entropy)), answer⟩ :: u ∧
      (∀ cause, answer = .error cause → result = .error (.chain cause) ∧ u = [] ∧ τ.store = σ.store) ∧
      ∀ h, answer = .ok h → (∀ field, σ.store.get? (key field h) = none) →
        Documented h (seedOf s.agent entropy) σ.store t result τ.store := by
  constructor
  · intro hpoll n hσ hroom
    exact (upholds_issueCommit_counting hroom hpoll hσ).imp fun _ _ _ => trivial
  intro t result τ hends
  obtain ⟨entropy, t₁, υ, υ', rfl, hmeanwhile, hserved, hhash⟩ := endsAfter_ask.1 hends
  obtain rfl := (prompt_amid O).meanwhile rfl hmeanwhile
  obtain rfl : υ' = υ := hserved
  obtain ⟨answer, u, ω, ω', rfl, hmeanwhile, hserved, hoffer⟩ := endsAfter_ask.1 hhash
  obtain rfl : ω' = ω := hserved
  have hstore : ω'.store = υ'.store := (meanwhile_amid hmeanwhile).elim (hO υ' ω') (congrArg Shared.store)
  refine ⟨entropy, answer, u, rfl, ?_, ?_⟩
  · rintro cause rfl
    obtain ⟨rfl, rfl, rfl⟩ := endsAfter_done.1 hoffer
    exact ⟨rfl, rfl, hstore⟩
  · rintro h rfl hnew
    let asked : Transcript interface :=
      [⟨.entropy, entropy⟩, ⟨.chain (.computeCommitHash (seedOf s.agent entropy)), .ok h⟩]
    have hidle : ∀ y ∈ asked, y.request.Idle :=
      List.forall_mem_cons.2 ⟨trivial, List.forall_mem_singleton.2 trivial⟩
    have hfair : Unfailed asked := List.forall_mem_cons.2 ⟨rfl, List.forall_mem_singleton.2 rfl⟩
    have hdocumented := endsAfter_offer hO (hstore ▸ hnew) hidle hfair hoffer
    rwa [hstore] at hdocumented

theorem issueCommit_ends_documented_mined : ∃ t τ time,
    (issueCommit usual).run.EndsAfter (amid Eq) (System.start usual (.memory .empty)).shared t
      (.ok (some (.fill 32 3))) τ ∧
    sends t = [.commit (.fill 32 3)] ∧
    Legible τ.store (.fill 32 3) (standing (seedOf usual.agent (.zero 32)) .pendingReveal (some 12) time) := by
  let σ : Shared := (System.start usual (.memory .empty)).shared
  have hO : ∀ σ τ : Shared, σ = τ → τ.store = σ.store := fun _ _ heq => heq ▸ rfl
  obtain ⟨-, hall⟩ := issueCommit_ends_documented usual hO σ
  let mined : Replies := ⟨.ok 0, .ok (.fill 32 4), some ⟨some 12, true⟩⟩
  have hcount : mined.CountWithin 0 := by
    rintro _ ⟨⟩
    decide
  have hσ : NonceWithin 0 σ := Nat.le_refl 0
  obtain ⟨u, result, τ, hoffer, -, hgiven⟩ :=
    (upholds_offer_counting (s := usual) (h := .fill 32 3) (by decide) (by decide)
      (seedOf usual.agent (.zero 32))
      hσ).exists_endsAfter (P := fun x => storeFailed x = false ∧ mined.Gives x) (fun _ _ => rfl)
      fun r σ hr => Replies.exists_served hcount hr σ
  have hends : (issueCommit usual).run.EndsAfter (amid Eq) σ (⟨.entropy, .zero 32⟩ ::
      ⟨.chain (.computeCommitHash (seedOf usual.agent (.zero 32))), .ok (.fill 32 3)⟩ :: u) result τ :=
    .ask rfl rfl (.ask rfl rfl (endsAfter_amid (fun _ => rfl) hoffer))
  obtain ⟨entropy, answer, u', ht, -, hknown⟩ := hall _ result τ hends
  cases ht
  have hdocumented := hknown (.fill 32 3) rfl fun field => by cases field <;> rfl
  have gives {x : Exchange interface} (hx : x ∈ (⟨.entropy, .zero 32⟩ : Exchange interface) ::
      ⟨.chain (.computeCommitHash (seedOf usual.agent (.zero 32))), .ok (.fill 32 3)⟩ :: u) : mined.Gives x := by
    rcases List.mem_cons.1 hx with rfl | hx
    · trivial
    rcases List.mem_cons.1 hx with rfl | hx
    · trivial
    · exact (hgiven x hx).2
  rcases result with cause | _ | g
  · refine absurd (fun x hx => ?_) (hdocumented.faulty cause rfl)
    rcases List.mem_cons.1 hx with rfl | hx
    · rfl
    rcases List.mem_cons.1 hx with rfl | hx
    · rfl
    · exact (hgiven x hx).1
  · obtain ⟨hturnedDown, -⟩ := hdocumented.dropped rfl
    cases hturnedDown with
    | refused answered => exact nomatch (gives answered : _ = mined.sending)
    | reverted accepted told => exact nomatch (gives told : _ = mined.receipt)
  · obtain ⟨rfl, nonce, tx, poll, timeout, receipt, time, accepted, told, -, -, hcard⟩ := hdocumented.issued g rfl
    obtain rfl : receipt = mined.receipt := gives told
    refine ⟨_, τ, time, hends, hdocumented.once.resolve_left fun hnone => ?_, hcard⟩
    have hmem : Chain.Submission.commit (.fill 32 3) ∈ sends _ := List.mem_filterMap.2 ⟨_, accepted, rfl⟩
    rw [hnone] at hmem
    cases hmem

end CommitReveal.Agent
