import CommitReveal.Proofs.Completion
import Mathlib.Data.List.Forall2

/-! The worker accounts for every hash in its queue. As long as nobody else touches the store, a hash that can be
revealed is sent once for each time it was queued until one of its reveals is mined, and no more; each reveal that
is not mined puts the hash off just once and changes nothing in the store. -/
namespace CommitReveal.Agent

open Program
open Repository (key key_inj peek Card Legible)

variable {s : Settings} {h : Hash} {c : Card} {O : Shared → Shared → Prop} {σ τ : Shared}
  {t u : Transcript interface}

/-- Others have been at work, but not on the store; to the queue they have added at its end at most. -/
structure Elsewhere (σ τ : Shared) : Prop where
  store : τ.store = σ.store
  queue : σ.memory.queue.waiting <+: τ.memory.queue.waiting

section Reveal

/-- How a reveal ends, and what it makes of the card of its hash. -/
inductive Handled (h : Hash) (c : Card) (t : Transcript interface) : RevealOutcome → Card → Prop
  | skipped (shut : c.finished ∨ c.seed = none) (unsent : sends t = []) (unmined : mined t = false) :
    Handled h c t .skipped (if c.status = some .revealed then c.clearPending else c)
  | revealed {seed : Seed} (time : Int64) (unfinished : c.finished = false) (seeded : c.seed = some seed)
    (sent : sends t = [.reveal h seed]) (succeeded : mined t = true) (fared : Fared (.reveal h seed) t true) :
    Handled h c t .revealed (c.markRevealed (some seed) time)
  | retry {seed : Seed} (unfinished : c.finished = false) (seeded : c.seed = some seed)
    (sent : sends t = [.reveal h seed]) (unmined : mined t = false) (fared : Fared (.reveal h seed) t false) :
    Handled h c t .retry c

theorem Handled.of_same {outcome : RevealOutcome} {c' : Card} (hsub : t ⊆ u) (hsends : sends u = sends t)
    (hmined : mined u = mined t) (ht : Handled h c t outcome c') : Handled h c u outcome c' := by
  cases ht with
  | skipped shut unsent unmined => exact .skipped shut (hsends.trans unsent) (hmined.trans unmined)
  | revealed time unfinished seeded sent succeeded fared =>
    exact .revealed time unfinished seeded (hsends.trans sent) (hmined.trans succeeded) (fared.mono hsub)
  | retry unfinished seeded sent unmined fared =>
    exact .retry unfinished seeded (hsends.trans sent) (hmined.trans unmined) (fared.mono hsub)

/-- What becomes of the card in a turn of the worker; the hash is put off if it is to be tried again. -/
def Dealt (h : Hash) (c : Card) (t : Transcript interface) (c' : Card) : Prop :=
  ∃ outcome, Handled h c t outcome c' ∧ puts t = if outcome = .retry then [h] else []

structure Concluded (h : Hash) (c : Card) (σ : Shared) (t : Transcript interface)
    (result : Except AgentError RevealOutcome) (τ : Shared) : Prop where
  handled : ∃ outcome c', result = .ok outcome ∧ Legible τ.store h c' ∧ Handled h c t outcome c'
  unput : puts t = []
  untouched : result = .ok .retry → τ.store = σ.store

theorem Concluded.behind {υ : Shared} {result : Except AgentError RevealOutcome} (hu : Uneventful u)
    (hstore : υ.store = σ.store) (ht : Concluded h c υ t result τ) : Concluded h c σ (u ++ t) result τ := by
  obtain ⟨⟨outcome, c', rfl, hc', hhandled⟩, hputs, huntouched⟩ := ht
  refine ⟨⟨outcome, c', rfl, hc', hhandled.of_same (List.subset_append_right u t) ?_ ?_⟩, ?_,
    fun hretry => (huntouched hretry).trans hstore⟩
  · rw [sends_append, hu.sends, List.nil_append]
  · rw [mined_append, hu.mined, Bool.false_or]
  · rw [puts_append, hu.puts, hputs]
    rfl

section Outcome

variable (hO : ∀ σ τ, O σ τ → τ.store = σ.store)

include hO

theorem endsAfter_submitReveal {seed : Seed} {result : Except AgentError RevealOutcome}
    (hc : Legible σ.store h c) (hopen : c.finished = false) (hseed : c.seed = some seed) (hfair : Unfailed t)
    (hends : (submitReveal s h seed).run.EndsAfter (amid O) σ t result τ) : Concluded h c σ t result τ := by
  rcases hends.of_attempt with ⟨cause, rfl, hfails⟩ | ⟨t₁, t₂, answer, υ, rfl, hsubmit, hrest⟩
  · obtain ⟨_, hno, -⟩ := hfails.of_lift
    cases hno
  obtain ⟨_, ⟨⟩, hsubmit⟩ := hsubmit.of_lift
  have hfair₂ : Unfailed t₂ := fun y hy => hfair y (List.mem_append_right t₁ hy)
  have hυ : υ.store = σ.store :=
    store_of_storeless hO (only_submit coversSending_storeless fun _ => trivial) hsubmit
  have hcυ : Legible υ.store h c := hυ ▸ hc
  have hsent : Sent (.reveal h seed) answer t₁ := told_submit hsubmit.reaches
  -- whichever way it is not mined, it is told and that is all
  have retry {u : Transcript interface} (hu : Uneventful u) (hfared : Fared (.reveal h seed) (t₁ ++ u) false)
      (hsame : τ.store = υ.store) (hres : result = .ok .retry) : Concluded h c σ (t₁ ++ u) result τ := by
    refine ⟨⟨.retry, c, hres, hsame ▸ hcυ, .retry hopen hseed ?_ ?_ hfared⟩, ?_, fun _ => hsame.trans hυ⟩
    · rw [sends_append, hu.sends, hsent.sends]
      rfl
    · rw [mined_append, hu.mined, hsent.mined]
      rfl
    · rw [puts_append, hu.puts, hsent.puts]
      rfl
  cases answer with
  | error cause =>
    obtain ⟨u, rfl, hend⟩ := past_notify (prompt_amid O) hrest
    obtain ⟨rfl, rfl, rfl⟩ := endsAfter_done.1 hend
    obtain ⟨nonce, hrefused⟩ := hsent.answered
    exact retry ⟨rfl, rfl, rfl⟩ (.refused (List.mem_append_left _ hrefused)) rfl rfl
  | ok tx =>
    obtain ⟨t₃, rfl, hconfirm⟩ := past_notify (prompt_amid O) hrest
    rcases hconfirm.of_attempt with ⟨cause, rfl, hfails⟩ | ⟨t₄, t₅, receipt, ω, rfl, hreceipt, hsettle⟩
    · obtain ⟨_, hno, -⟩ := hfails.of_lift
      cases hno
    obtain ⟨_, ⟨⟩, hreceipt⟩ := hreceipt.of_lift
    have hω : ω.store = υ.store :=
      store_of_storeless hO (only_confirm coversSending_storeless trivial) hreceipt
    obtain rfl := told_confirm hreceipt.reaches
    have hcω : Legible ω.store h c := hω ▸ hcυ
    obtain ⟨nonce, haccepted⟩ := hsent.answered
    have fared (u : Transcript interface) : Fared (.reveal h seed)
        (t₁ ++ ⟨.notify (.revealing h tx), ()⟩ :: ([⟨.receipt tx s.timings.receiptPoll s.timings.receiptTimeout,
          receipt⟩] ++ u)) (receipt.any (·.success)) :=
      .awaited (List.mem_append_left _ haccepted)
        (List.mem_append_right _ (List.mem_cons_of_mem _ List.mem_cons_self))
    rcases receipt with _ | ⟨block, _ | _⟩
    · obtain ⟨u, rfl, hend⟩ := past_notify (prompt_amid O) hsettle
      obtain ⟨rfl, rfl, rfl⟩ := endsAfter_done.1 hend
      exact retry ⟨rfl, rfl, rfl⟩ (fared _) hω rfl
    · obtain ⟨u, rfl, hend⟩ := past_notify (prompt_amid O) hsettle
      obtain ⟨rfl, rfl, rfl⟩ := endsAfter_done.1 hend
      exact retry ⟨rfl, rfl, rfl⟩ (fared _) hω rfl
    · have hfair₅ : Unfailed t₅ := fun y hy =>
        hfair₂ y (List.mem_cons_of_mem _ (List.mem_cons_of_mem _ hy))
      obtain ⟨t₆, t₇, ⟨⟩, ρ, rfl, hmark, ⟨time, hcard⟩, -, htell⟩ :=
        past_repository (prompt_amid O) (Repository.tries_markRevealed hcω (some seed)) hfair₅ hsettle
      obtain ⟨u, rfl, hend⟩ := past_notify (prompt_amid O) htell
      obtain ⟨rfl, rfl, rfl⟩ := endsAfter_done.1 hend
      have hu : Uneventful t₆ := .of_reaches (idle_repository _) hmark.reaches
      refine ⟨⟨.revealed, _, rfl, hcard, .revealed time hopen hseed ?_ ?_ (fared _)⟩, ?_,
        fun hno => nomatch hno⟩
      · rw [sends_append, hsent.sends]
        exact congrArg (_ :: ·) (hu.append ⟨rfl, rfl, rfl⟩).sends
      · rw [mined_append, hsent.mined]
        rfl
      · rw [puts_append, hsent.puts]
        exact (hu.append ⟨rfl, rfl, rfl⟩).puts

theorem endsAfter_reveal {result : Except AgentError RevealOutcome} (hc : Legible σ.store h c)
    (hfair : Unfailed t) (hends : (reveal s h).run.EndsAfter (amid O) σ t result τ) :
    Concluded h c σ t result τ := by
  unfold reveal at hends
  obtain ⟨t₁, t₂, st, υ, rfl, hread, ⟨rfl, hυ⟩, hfair₂, hrest⟩ :=
    past_repository (prompt_amid O) (Repository.tries_status hc) hfair hends
  refine Concluded.behind (.of_reaches (idle_repository _) hread.reaches) hυ ?_
  have hυ' : υ.store = σ.store := hυ
  have hcυ : Legible υ.store h c := hυ' ▸ hc
  clear hread hυ hυ' hends hfair hc
  split at hrest
  · rename_i hdone
    obtain ⟨t₃, t₄, ⟨⟩, ω, rfl, hclear, hcard, -, hend⟩ :=
      past_repository (prompt_amid O) (Repository.tries_clearPending hcυ) hfair₂ hrest
    obtain ⟨rfl, rfl, rfl⟩ := endsAfter_done.1 hend
    rw [List.append_nil]
    have hu : Uneventful t₃ := .of_reaches (idle_repository _) hclear.reaches
    have hfinished : c.finished = true := by rw [Card.finished, hdone]; rfl
    have hskip := Handled.skipped (h := h) (c := c) (.inl hfinished) hu.sends hu.mined
    rw [if_pos hdone] at hskip
    exact ⟨⟨_, _, rfl, hcard, hskip⟩, hu.puts, fun hno => absurd hno (by decide)⟩
  rename_i hundone
  -- a hash that there is nothing to do about stays as it is
  have skip {u : Transcript interface} (hover : c.finished ∨ c.seed = none) (hu : Uneventful u)
      (hres : result = .ok .skipped) (hsame : τ.store = υ.store) : Concluded h c υ u result τ := by
    have hskip := Handled.skipped (h := h) hover hu.sends hu.mined
    rw [if_neg hundone] at hskip
    exact ⟨⟨_, _, hres, hsame ▸ hcυ, hskip⟩, hu.puts, fun _ => hsame⟩
  split at hrest
  · rename_i hfinal
    obtain ⟨rfl, rfl, rfl⟩ := endsAfter_done.1 hrest
    exact skip (.inl hfinal) ⟨rfl, rfl, rfl⟩ rfl rfl
  rename_i hopen
  obtain ⟨t₃, t₄, seed, ω, rfl, hread, ⟨rfl, hω⟩, hfair₄, hsend⟩ :=
    past_repository (prompt_amid O) (Repository.tries_seed hcυ) hfair₂ hrest
  have hω' : ω.store = υ.store := hω
  have hu : Uneventful t₃ := .of_reaches (idle_repository _) hread.reaches
  cases hseed : c.seed with
  | none =>
    rw [hseed] at hsend
    obtain ⟨u, rfl, hend⟩ := past_notify (prompt_amid O) hsend
    obtain ⟨rfl, rfl, rfl⟩ := endsAfter_done.1 hend
    exact skip (.inr hseed) (hu.append ⟨rfl, rfl, rfl⟩) rfl hω'
  | some seed =>
    rw [hseed] at hsend
    have hunfinished : c.finished = false := eq_false_of_ne_true hopen
    exact (endsAfter_submitReveal hO (hω' ▸ hcυ) hunfinished hseed hfair₄ hsend).behind hu hω'

theorem endsAfter_processReveal (hc : Legible σ.store h c) (hfair : Unfailed t)
    (hends : (processReveal s h).EndsAfter (amid O) σ t () τ) :
    ∃ c', Legible τ.store h c' ∧ Dealt h c t c' ∧ (puts t ≠ [] → τ.store = σ.store) := by
  obtain ⟨t₁, t₂, result, υ, rfl, hreveal, hrest⟩ := EndsAfter.of_bind hends
  have hfair₁ : Unfailed t₁ := fun y hy => hfair y (List.mem_append_left t₂ hy)
  obtain ⟨⟨outcome, c', rfl, hc', hhandled⟩, hputs, huntouched⟩ := endsAfter_reveal hO hc hfair₁ hreveal
  have done (hdone : outcome ≠ .retry) (hend : (done ()).EndsAfter (amid O) υ t₂ () τ) :
      ∃ c', Legible τ.store h c' ∧ Dealt h c (t₁ ++ t₂) c' ∧ (puts (t₁ ++ t₂) ≠ [] → τ.store = σ.store) := by
    obtain ⟨rfl, -, rfl⟩ := endsAfter_done.1 hend
    rw [List.append_nil]
    refine ⟨c', hc', ⟨outcome, hhandled, by rw [hputs, if_neg hdone]⟩, fun hno => absurd hputs hno⟩
  cases outcome with
  | revealed => exact done (by decide) hrest
  | skipped => exact done (by decide) hrest
  | retry =>
    obtain ⟨⟨⟩, u, ρ, ω, rfl, hmeanwhile, ⟨-, rfl⟩, hend⟩ := endsAfter_ask.1 hrest
    obtain rfl := (prompt_amid O).meanwhile rfl hmeanwhile
    obtain ⟨rfl, -, rfl⟩ := endsAfter_done.1 hend
    refine ⟨c', hc', ⟨.retry, ?_, ?_⟩, fun _ => huntouched rfl⟩
    · refine hhandled.of_same (List.subset_append_left t₁ _) ?_ ?_
      · rw [sends_append]
        exact List.append_nil _
      · rw [mined_append]
        exact Bool.or_false _
    · rw [puts_append, hputs, if_pos rfl]
      rfl

end Outcome

end Reveal

section Cards

variable {c' : Card} {seed : Seed} {ts : List (Transcript interface)}

def Over (c : Card) : Prop :=
  c.finished ∨ c.seed = none

structure Disclosed (seed : Seed) (c : Card) : Prop where
  status : c.status = some .revealed
  pending : c.pending = false
  seeded : c.seed = some seed

theorem Disclosed.closed (hc : Disclosed seed c) : Over c := by
  left
  rw [Card.finished, hc.status]
  rfl

theorem disclosed_markRevealed (hopen : c.finished = false) (time : Int64) :
    Disclosed seed (c.markRevealed (some seed) time) where
  status := by rw [Card.status_markRevealed, hopen, if_neg Bool.false_ne_true]
  pending := Card.pending_markRevealed
  seeded := Card.seed_markRevealed

theorem Dealt.closed (hover : Over c) (hdealt : Dealt h c t c') :
    sends t = [] ∧ puts t = [] ∧ (c' = c ∨ c.status = some .revealed ∧ c' = c.clearPending) := by
  obtain ⟨outcome, hhandled, hputs⟩ := hdealt
  have never {seed : Seed} (hopen : c.finished = false) (hseed : c.seed = some seed) : False := by
    rcases hover with hfinal | hnone
    · rw [hopen] at hfinal
      cases hfinal
    · rw [hseed] at hnone
      cases hnone
  cases hhandled with
  | skipped shut unsent unmined =>
    refine ⟨unsent, hputs, ?_⟩
    split
    · rename_i hrevealed
      exact .inr ⟨hrevealed, rfl⟩
    · exact .inl rfl
  | revealed time unfinished seeded => exact (never unfinished seeded).elim
  | retry unfinished seeded => exact (never unfinished seeded).elim

theorem Dealt.owing (hopen : c.finished = false) (hseed : c.seed = some seed) (hdealt : Dealt h c t c') :
    sends t = [.reveal h seed] ∧ puts t = (if mined t then [] else [h]) ∧ Fared (.reveal h seed) t (mined t) ∧
    (mined t = false → c' = c) ∧ (mined t = true → Disclosed seed c') := by
  obtain ⟨outcome, hhandled, hputs⟩ := hdealt
  cases hhandled with
  | skipped shut =>
    rcases shut with hfinal | hnone
    · rw [hopen] at hfinal
      cases hfinal
    · rw [hseed] at hnone
      cases hnone
  | revealed time unfinished seeded sent succeeded fared =>
    obtain rfl := Option.some.inj (seeded.symm.trans hseed)
    rw [succeeded]
    exact ⟨sent, hputs, fared, nofun, fun _ => disclosed_markRevealed hopen time⟩
  | retry unfinished seeded sent unmined fared =>
    obtain rfl := Option.some.inj (seeded.symm.trans hseed)
    rw [unmined]
    exact ⟨sent, hputs, fared, fun _ => rfl, nofun⟩

/-- What becomes of the card in the turns for its hash. -/
inductive Account (h : Hash) : Card → List (Transcript interface) → Card → Prop
  | nil (c : Card) : Account h c [] c
  | cons {c c₁ c' : Card} {t : Transcript interface} {ts : List (Transcript interface)}
    (first : Dealt h c t c₁) (rest : Account h c₁ ts c') : Account h c (t :: ts) c'

theorem Account.closed (hover : Over c) (ha : Account h c ts c') :
    (c' = c ∨ c.status = some .revealed ∧ c' = c.clearPending) ∧ ∀ t ∈ ts, sends t = [] ∧ puts t = [] := by
  induction ha with
  | nil c => exact ⟨.inl rfl, nofun⟩
  | cons first rest ih =>
    obtain ⟨hsends, hputs, hcard⟩ := first.closed hover
    rcases hcard with rfl | ⟨hrevealed, rfl⟩
    · obtain ⟨hcard', hrest⟩ := ih hover
      exact ⟨hcard', List.forall_mem_cons.2 ⟨⟨hsends, hputs⟩, hrest⟩⟩
    · obtain ⟨hcard', hrest⟩ := ih hover
      refine ⟨.inr ⟨hrevealed, ?_⟩, List.forall_mem_cons.2 ⟨⟨hsends, hputs⟩, hrest⟩⟩
      rcases hcard' with rfl | ⟨-, rfl⟩ <;> rfl

theorem Account.disclosed (hc : Disclosed seed c) (ha : Account h c ts c') : Disclosed seed c' := by
  rcases (ha.closed hc.closed).1 with rfl | ⟨-, rfl⟩
  · exact hc
  · exact ⟨hc.status, rfl, hc.seeded⟩

theorem Account.owing (hopen : c.finished = false) (hseed : c.seed = some seed) (ha : Account h c ts c') :
    (ts.any mined = false → c' = c) ∧ (ts.any mined = true → Disclosed seed c') := by
  induction ha with
  | nil c => exact ⟨fun _ => rfl, nofun⟩
  | cons first rest ih =>
    obtain ⟨-, -, -, hsame, hdisclosed⟩ := first.owing hopen hseed
    rename_i c c₁ c' t ts
    rw [List.any_cons]
    cases hmined : mined t with
    | true => exact ⟨nofun, fun _ => rest.disclosed (hdisclosed hmined)⟩
    | false =>
      obtain rfl := hsame hmined
      rw [Bool.false_or]
      exact ih hopen hseed

end Cards

section Turns

/-- The next turn of the worker, in which no call to the store fails: a hash is taken from the queue and seen to. -/
structure Attends (s : Settings) (O : Shared → Shared → Prop) (σ : Shared) (h : Hash) (t : Transcript interface)
    (τ : Shared) : Prop where
  ends : (workerTurn s true).EndsAfter (amid O) σ (⟨.nextReveal, some h⟩ :: t) (some (.revealWorker true)) τ
  fair : Unfailed t

/-- Turns of the worker one after the other, with the hashes that they are for. -/
inductive Drains (s : Settings) (O : Shared → Shared → Prop) :
    Shared → List (Hash × Transcript interface) → Shared → Prop
  | nil (σ : Shared) : Drains s O σ [] σ
  | cons {σ υ τ : Shared} {h : Hash} {t : Transcript interface} {rest : List (Hash × Transcript interface)}
    (turn : Attends s O σ h t υ) (later : Drains s O υ rest τ) : Drains s O σ ((h, t) :: rest) τ

/-- The turns for one hash. -/
def turnsFor (h : Hash) (turns : List (Hash × Transcript interface)) : List (Transcript interface) :=
  (turns.filter fun turn => turn.1 = h).map (·.2)

theorem attends_iff : Attends s O σ h t τ ↔ Unfailed t ∧ ∃ ρ queue, O σ ρ ∧
    ρ.memory.queue.dequeue = some (h, queue) ∧
    (processReveal s h).EndsAfter (amid O) { ρ with memory := { ρ.memory with queue } } t () τ := by
  constructor
  · rintro ⟨hends, hfair⟩
    obtain ⟨x, u, ρ, ω, htaken, hmeanwhile, hserved, hrest⟩ := endsAfter_ask.1 hends
    cases htaken
    rcases hserved with ⟨hnone, -⟩ | ⟨_, queue, hqueue, heq, rfl⟩
    · cases hnone
    cases heq
    have hturn : ((processReveal s h).bind fun _ => done (some (Routine.revealWorker true))).EndsAfter (amid O)
        { ρ with memory := { ρ.memory with queue } } t (some (.revealWorker true)) τ := hrest
    obtain ⟨t₁, t₂, ⟨⟩, υ, rfl, hprocess, hend⟩ := hturn.of_bind
    obtain ⟨rfl, -, rfl⟩ := endsAfter_done.1 hend
    rw [List.append_nil] at hfair ⊢
    exact ⟨hfair, ρ, queue, hmeanwhile, hqueue, hprocess⟩
  · rintro ⟨hfair, ρ, queue, hothers, hqueue, hprocess⟩
    refine ⟨.ask hothers (.inr ⟨h, queue, hqueue, rfl, rfl⟩) ?_, hfair⟩
    rw [← List.append_nil t]
    exact hprocess.bind (f := fun _ => .done _) (.done (E := amid O) _ τ)

section Step

variable (hO : ∀ σ τ, O σ τ → Elsewhere σ τ)

include hO

theorem Attends.dealt (hc : Legible σ.store h c) (hturn : Attends s O σ h t τ) :
    ∃ c', Legible τ.store h c' ∧ Dealt h c t c' ∧ (puts t ≠ [] → τ.store = σ.store) := by
  obtain ⟨hfair, ρ, queue, hothers, -, hprocess⟩ := attends_iff.1 hturn
  have hρ : ρ.store = σ.store := (hO σ ρ hothers).store
  obtain ⟨c', hc', hdealt, huntouched⟩ :=
    endsAfter_processReveal (fun σ τ h => (hO σ τ h).store) (hρ ▸ hc) hfair hprocess
  exact ⟨c', hc', hdealt, fun hput => (huntouched hput).trans hρ⟩

theorem Attends.get?_eq (hturn : Attends s O σ h t τ) {k : Bytes} (hk : ∀ field, k ≠ key field h) :
    τ.store.get? k = σ.store.get? k := by
  obtain ⟨-, ρ, queue, hothers, -, hprocess⟩ := attends_iff.1 hturn
  rw [get?_of_tending (fun σ τ h => (hO σ τ h).store) (tends_processReveal s h) hprocess hk]
  exact congrArg (Store.Backend.get? · k) (hO σ ρ hothers).store

theorem Attends.queue (hturn : Attends s O σ h t τ) :
    σ.memory.queue.waiting <+: h :: τ.memory.queue.waiting := by
  obtain ⟨-, ρ, queue, hothers, htaken, hprocess⟩ := attends_iff.1 hturn
  have hgrown : queue.waiting <+: τ.memory.queue.waiting :=
    queue_of_tending (R := fun q q' : RevealQueue => q.waiting <+: q'.waiting)
      (fun q => List.prefix_refl q.waiting)
      List.IsPrefix.trans (fun σ τ h => (hO σ τ h).queue) (tends_processReveal s h) hprocess
  have hfirst : ρ.memory.queue.waiting = h :: queue.waiting := mem_dequeue htaken
  have hbefore := (hO σ ρ hothers).queue
  rw [hfirst] at hbefore
  exact hbefore.trans ((List.prefix_cons_inj h).2 hgrown)

theorem Drains.queue {turns : List (Hash × Transcript interface)} (hd : Drains s O σ turns τ) :
    σ.memory.queue.waiting <+: turns.map (·.1) ++ τ.memory.queue.waiting := by
  induction hd with
  | nil σ => exact List.prefix_refl _
  | cons turn later ih => exact (turn.queue hO).trans ((List.prefix_cons_inj _).2 ih)

theorem Drains.get?_eq {turns : List (Hash × Transcript interface)} (hd : Drains s O σ turns τ) {k : Bytes}
    (hk : ∀ turn ∈ turns, ∀ field, k ≠ key field turn.1) : τ.store.get? k = σ.store.get? k := by
  induction hd with
  | nil σ => rfl
  | cons turn later ih =>
    rw [ih fun turn' hturn' => hk turn' (List.mem_cons_of_mem _ hturn'),
      turn.get?_eq hO (hk _ List.mem_cons_self)]

/-- What becomes of the card of a hash is the account of its turns: the turns of other hashes leave it alone. -/
theorem Drains.account {turns : List (Hash × Transcript interface)} (hc : Legible σ.store h c)
    (hd : Drains s O σ turns τ) : ∃ c', Legible τ.store h c' ∧ Account h c (turnsFor h turns) c' := by
  induction hd generalizing c with
  | nil σ => exact ⟨c, hc, .nil c⟩
  | @cons σ υ τ g t rest turn later ih =>
    by_cases hg : g = h
    · subst hg
      obtain ⟨c₁, hc₁, hdealt, -⟩ := turn.dealt hO hc
      obtain ⟨c', hc', haccount⟩ := ih hc₁
      refine ⟨c', hc', ?_⟩
      rw [turnsFor, List.filter_cons_of_pos (by simp)]
      exact .cons hdealt haccount
    · have hsame : Legible υ.store h c :=
        hc.of_same fun field _ => turn.get?_eq hO fun field' heq => hg (key_inj.1 heq).2.symm
      obtain ⟨c', hc', haccount⟩ := ih hsame
      refine ⟨c', hc', ?_⟩
      rwa [turnsFor, List.filter_cons_of_neg (by simpa using hg)]

end Step

theorem Attends.about (hturn : Attends s O σ h t τ) :
    (∀ what ∈ sends t, subject what = some h) ∧ ∀ g ∈ puts t, g = h := by
  obtain ⟨-, ρ, queue, -, -, hprocess⟩ := attends_iff.1 hturn
  exact about_of_tending (tends_processReveal s h) hprocess.reaches

theorem Attends.deferred (hquiet : ∀ σ τ, O σ τ → τ.memory.deferred = σ.memory.deferred)
    (hturn : Attends s O σ h t τ) : τ.memory.deferred = σ.memory.deferred ++ puts t := by
  obtain ⟨-, ρ, queue, hothers, -, hprocess⟩ := attends_iff.1 hturn
  rw [deferred_of_tending hquiet (tends_processReveal s h) hprocess]
  exact congrArg (· ++ puts t) (hquiet σ ρ hothers)

theorem Drains.deferred (hquiet : ∀ σ τ, O σ τ → τ.memory.deferred = σ.memory.deferred)
    {turns : List (Hash × Transcript interface)} (hd : Drains s O σ turns τ) :
    τ.memory.deferred = σ.memory.deferred ++ turns.flatMap fun turn => puts turn.2 := by
  induction hd with
  | nil σ => exact (List.append_nil _).symm
  | cons turn later ih => rw [ih, turn.deferred hquiet, List.flatMap_cons, List.append_assoc]

end Turns

section Replies

def Replies.succeed (e : Replies) : Bool :=
  e.sending.toBool && e.receipt.any (·.success)

theorem Replies.succeed_of_fared {e : Replies} {what : Chain.Submission} {succeeded : Bool}
    (hgives : ∀ x ∈ t, e.Gives x) (hfared : Fared what t succeeded) : succeeded = e.succeed := by
  cases hfared with
  | refused answered =>
    have hsending : _ = e.sending := hgives _ answered
    rw [succeed, ← hsending]
    rfl
  | awaited accepted told =>
    have hsending : _ = e.sending := hgives _ accepted
    have hreceipt : _ = e.receipt := hgives _ told
    rw [succeed, ← hsending, ← hreceipt]
    rfl

variable {n : Nat}

theorem dequeue_of_waiting {q : RevealQueue} {rest : List Hash} (hq : q.waiting = h :: rest) :
    q.dequeue = some (h, { q with waiting := rest }) := by
  rcases q with ⟨capacity, waiting, receiver⟩
  cases hq
  rfl

theorem exists_attends (hquiet : ∀ σ, O σ σ) (hpoll : s.timings.receiptPoll ≠ 0) (hroom : n + 1 < UInt64.size)
    (hσ : NonceWithin n σ) {e : Replies} (he : e.CountWithin n) {rest : List Hash}
    (hwaiting : σ.memory.queue.waiting = h :: rest) : ∃ t τ, Attends s O σ h t τ ∧ NonceWithin (n + 1) τ ∧
      τ.memory.queue.waiting = rest ∧ ∀ x ∈ t, e.Gives x := by
  let ρ : Shared := { σ with memory := { σ.memory with queue := { σ.memory.queue with waiting := rest } } }
  have hρ : NonceWithin n ρ := hσ
  obtain ⟨t, ⟨⟩, τ, hprocess, hτ, hgiven⟩ :=
    (upholds_processReveal_counting hroom hpoll h hρ).exists_endsAfter
      (P := fun x => storeFailed x = false ∧ e.Gives x)
      (fun _ _ => rfl) fun r σ hr => Replies.exists_served he hr σ
  have hsame : τ.memory.queue = ρ.memory.queue :=
    queue_of_tending (R := fun q q' => q' = q) (fun _ => rfl) (fun h₁ h₂ => h₂.trans h₁)
      (fun σ τ heq => by rw [← heq]) (tends_processReveal s h)
      (endsAfter_amid (O := Eq) (fun _ => rfl) hprocess)
  refine ⟨t, τ, attends_iff.2 ⟨fun x hx => (hgiven x hx).1, σ, _, hquiet σ, dequeue_of_waiting hwaiting, ?_⟩, hτ,
    congrArg RevealQueue.waiting hsame, fun x hx => (hgiven x hx).2⟩
  exact endsAfter_amid hquiet hprocess

/-- The worker sees to the whole queue, whatever the chain answers in each turn. -/
theorem exists_drains (hquiet : ∀ σ, O σ σ) (hpoll : s.timings.receiptPoll ≠ 0) {replies : List Replies}
    (hroom : n + replies.length < UInt64.size) (hσ : NonceWithin n σ) (hcounts : ∀ e ∈ replies, e.CountWithin n)
    (hlength : replies.length = σ.memory.queue.waiting.length) : ∃ turns τ, Drains s O σ turns τ ∧
      turns.map (·.1) = σ.memory.queue.waiting ∧ τ.memory.queue.waiting = [] ∧
      List.Forall₂ (fun e turn => ∀ x ∈ turn.2, Replies.Gives e x) replies turns := by
  induction replies generalizing n σ with
  | nil =>
    have hempty : σ.memory.queue.waiting = [] := List.length_eq_zero_iff.1 hlength.symm
    exact ⟨[], σ, .nil σ, hempty.symm, hempty, .nil⟩
  | cons e later ih =>
    obtain ⟨h, rest, hwaiting⟩ := List.exists_cons_of_length_eq_add_one hlength.symm
    rw [List.length_cons] at hroom
    obtain ⟨t, υ, hturn, hυ, hleft, hgives⟩ := exists_attends hquiet hpoll (by omega) hσ
      (hcounts e List.mem_cons_self) hwaiting
    have hcounts' : ∀ e' ∈ later, e'.CountWithin (n + 1) := fun e' he' count hcount =>
      Nat.le_succ_of_le (hcounts e' (List.mem_cons_of_mem e he') count hcount)
    have hlength' : later.length = υ.memory.queue.waiting.length := by
      rw [hwaiting, List.length_cons, List.length_cons] at hlength
      rw [hleft]
      omega
    obtain ⟨turns, τ, hdrains, hturns, hempty, hall⟩ := ih (by omega) hυ hcounts' hlength'
    refine ⟨(h, t) :: turns, τ, .cons hturn hdrains, ?_, hempty, .cons hgives hall⟩
    rw [List.map_cons, hturns, hwaiting, hleft]

end Replies

theorem Drains.split {before later : List (Hash × Transcript interface)}
    (hd : Drains s O σ (before ++ (h, t) :: later) τ) :
    ∃ υ ω, Drains s O σ before υ ∧ Attends s O υ h t ω ∧ Drains s O ω later τ := by
  induction before generalizing σ with
  | nil =>
    cases hd with
    | cons turn rest => exact ⟨σ, _, .nil σ, turn, rest⟩
  | cons first before ih =>
    cases hd with
    | cons turn rest =>
      obtain ⟨υ, ω, hbefore, hturn, hlater⟩ := ih rest
      exact ⟨υ, ω, .cons turn hbefore, hturn, hlater⟩

theorem Drains.attends {turns : List (Hash × Transcript interface)} (hd : Drains s O σ turns τ)
    {turn : Hash × Transcript interface} (hturn : turn ∈ turns) : ∃ υ ω, Attends s O υ turn.1 turn.2 ω := by
  obtain ⟨before, later, rfl⟩ := List.append_of_mem hturn
  obtain ⟨υ, ω, -, hattends, -⟩ := hd.split
  exact ⟨υ, ω, hattends⟩

/-- A turn for a hash that could be revealed, after these turns for it: the seed is sent unless a reveal has been
mined, and the hash is put off just if none has been mined by the end of the turn. -/
structure Accounted (h : Hash) (seed : Seed) (earlier : List (Transcript interface)) (σ : Shared)
    (t : Transcript interface) (τ : Shared) : Prop where
  sent : sends t = if earlier.any mined then [] else [.reveal h seed]
  put : puts t = if earlier.any mined || mined t then [] else [h]
  fared : earlier.any mined = false → Fared (.reveal h seed) t (mined t)
  untouched : (earlier.any mined || mined t) = false → τ.store = σ.store

theorem Drains.accounted {before : List (Hash × Transcript interface)} {υ : Shared} {seed : Seed}
    (hO : ∀ σ τ, O σ τ → Elsewhere σ τ) (hc : Legible σ.store h c) (hopen : c.finished = false)
    (hseed : c.seed = some seed) (hbefore : Drains s O σ before υ) (hturn : Attends s O υ h t τ) :
    Accounted h seed (turnsFor h before) υ t τ := by
  obtain ⟨c₁, hc₁, haccount⟩ := hbefore.account hO hc
  obtain ⟨c', -, hdealt, huntouched⟩ := hturn.dealt hO hc₁
  obtain ⟨hsame, hdisclosed⟩ := haccount.owing hopen hseed
  cases hmined : (turnsFor h before).any mined with
  | true =>
    obtain ⟨hsends, hputs, -⟩ := hdealt.closed (hdisclosed hmined).closed
    refine ⟨?_, ?_, fun hno => ?_, fun hno => ?_⟩
    · rw [hmined, hsends, if_pos rfl]
    · rw [hmined, hputs, Bool.true_or, if_pos rfl]
    · rw [hmined] at hno
      cases hno
    · rw [hmined, Bool.true_or] at hno
      cases hno
  | false =>
    obtain rfl := hsame hmined
    obtain ⟨hsends, hputs, hfared, -⟩ := hdealt.owing hopen hseed
    refine ⟨?_, ?_, fun _ => hfared, fun hno => huntouched ?_⟩
    · rw [hmined, hsends, if_neg Bool.false_ne_true]
    · rw [hmined, hputs, Bool.false_or]
    · rw [hmined, Bool.false_or] at hno
      rw [hputs, hno, if_neg Bool.false_ne_true]
      exact List.cons_ne_nil h []

/-- While nobody else touches the store, a hash with a seed and without a final status is sent in each of
its turns until a reveal of it is mined, and each turn without that puts it off once. -/
theorem worker_accounts_for_queue (s : Settings) {O : Shared → Shared → Prop} (hO : ∀ σ τ, O σ τ → Elsewhere σ τ)
    (σ : Shared) :
    ((∀ σ, O σ σ) → s.timings.receiptPoll ≠ 0 → ∀ n (replies : List Replies), NonceWithin n σ →
      n + replies.length < UInt64.size → (∀ e ∈ replies, e.CountWithin n) →
      replies.length = σ.memory.queue.waiting.length →
      ∃ turns τ, Drains s O σ turns τ ∧ turns.map (·.1) = σ.memory.queue.waiting ∧ τ.memory.queue.waiting = [] ∧
        List.Forall₂ (fun e turn => ∀ x ∈ turn.2, Replies.Gives e x) replies turns) ∧
    ∀ turns τ, Drains s O σ turns τ →
      σ.memory.queue.waiting <+: turns.map (·.1) ++ τ.memory.queue.waiting ∧
      ((∀ σ τ, O σ τ → τ.memory.deferred = σ.memory.deferred) →
        τ.memory.deferred = σ.memory.deferred ++ turns.flatMap fun turn => puts turn.2) ∧
      (∀ k, (∀ turn ∈ turns, ∀ field, k ≠ key field turn.1) → τ.store.get? k = σ.store.get? k) ∧
      (∀ turn ∈ turns, (∀ what ∈ sends turn.2, subject what = some turn.1) ∧ ∀ g ∈ puts turn.2, g = turn.1) ∧
      ∀ h c, Legible σ.store h c → ∃ c', Legible τ.store h c' ∧
        (∀ seed, c.finished = false → c.seed = some seed →
          c'.seed = some seed ∧
          (c'.status = some .revealed ∧ c'.pending = false ↔ (turnsFor h turns).any mined = true) ∧
          ((turnsFor h turns).any mined = false → c' = c) ∧
          ∀ before t later, turns = before ++ (h, t) :: later →
            ∃ υ ω, Drains s O σ before υ ∧ Attends s O υ h t ω ∧ Drains s O ω later τ ∧
              Accounted h seed (turnsFor h before) υ t ω) ∧
        (Over c → (c' = c ∨ c.status = some .revealed ∧ c' = c.clearPending) ∧
          ∀ t ∈ turnsFor h turns, sends t = [] ∧ puts t = []) := by
  constructor
  · intro hquiet hpoll n replies hσ hroom hcounts hlength
    exact exists_drains hquiet hpoll hroom hσ hcounts hlength
  intro turns τ hdrains
  refine ⟨hdrains.queue hO, hdrains.deferred, fun k hk => hdrains.get?_eq hO hk, fun turn hturn => ?_,
    fun h c hc => ?_⟩
  · obtain ⟨υ, ω, hattends⟩ := hdrains.attends hturn
    exact hattends.about
  obtain ⟨c', hc', haccount⟩ := hdrains.account hO hc
  refine ⟨c', hc', fun seed hopen hseed => ?_, fun hover => haccount.closed hover⟩
  obtain ⟨hsame, hdisclosed⟩ := haccount.owing hopen hseed
  refine ⟨?_, ⟨fun hdone => ?_, fun hmined => ?_⟩, hsame, ?_⟩
  · cases hmined : (turnsFor h turns).any mined with
    | true => exact (hdisclosed hmined).seeded
    | false => rw [hsame hmined, hseed]
  · by_contra hno
    rw [hsame (eq_false_of_ne_true hno)] at hdone
    rw [Card.finished, hdone.1] at hopen
    cases hopen
  · exact ⟨(hdisclosed hmined).status, (hdisclosed hmined).pending⟩
  · rintro before t later rfl
    obtain ⟨υ, ω, hbefore, hturn, hlater⟩ := hdrains.split
    exact ⟨υ, ω, hbefore, hturn, hlater, hbefore.accounted hO hc hopen hseed hturn⟩

def queuedThrice : Shared :=
  ⟨(firstCommit (.ok (.fill 32 4)) 15).1.store,
    ⟨⟨8, [.fill 32 3, .fill 32 3, .fill 32 3], .taken⟩, [], ⟨7⟩⟩, []⟩

theorem worker_accounts_for_queue_queuedThrice : ∃ t₁ t₂ t₃ τ c',
    Drains usual Eq queuedThrice [(.fill 32 3, t₁), (.fill 32 3, t₂), (.fill 32 3, t₃)] τ ∧
    sends t₁ = [.reveal (.fill 32 3) (seedOf usual.agent (.zero 32))] ∧ puts t₁ = [.fill 32 3] ∧
    sends t₂ = [.reveal (.fill 32 3) (seedOf usual.agent (.zero 32))] ∧ puts t₂ = [] ∧
    sends t₃ = [] ∧ puts t₃ = [] ∧ τ.memory.deferred = [.fill 32 3] ∧
    Legible τ.store (.fill 32 3) c' ∧ c'.status = some .revealed ∧ c'.pending = false := by
  have hO : ∀ σ τ : Shared, σ = τ → Elsewhere σ τ := by
    rintro σ _ rfl
    exact ⟨rfl, List.prefix_refl _⟩
  obtain ⟨hexists, hall⟩ := worker_accounts_for_queue usual hO queuedThrice
  let refused : Replies := ⟨.ok 7, .error (.rpc "down"), none⟩
  let accepted : Replies := ⟨.error (.rpc "down"), .ok (.fill 32 9), some ⟨some 12, true⟩⟩
  have hcounts : ∀ e ∈ [refused, accepted, refused], e.CountWithin 7 := by
    intro e he count hcount
    simp only [List.mem_cons, List.not_mem_nil, or_false] at he
    rcases he with rfl | rfl | rfl
    · cases hcount
      decide
    · cases hcount
    · cases hcount
      decide
  obtain ⟨turns, τ, hdrains, hturns, -, hgives⟩ := hexists (fun _ => rfl) (by decide) 7
    [refused, accepted, refused] (Nat.le_refl 7) (by decide) hcounts rfl
  obtain ⟨-, hdeferred, -, -, hcards⟩ := hall turns τ hdrains
  have hcard : Legible queuedThrice.store (.fill 32 3)
      ⟨some (seedOf usual.agent (.zero 32)), some ⟨.created, none, 0⟩, true⟩ :=
      Card.Shows.legible ⟨rfl, rfl, rfl⟩
  obtain ⟨c', hc', howing, -⟩ := hcards _ _ hcard
  obtain ⟨-, hrevealed, -, hturn⟩ := howing _ rfl rfl
  match turns, hturns, hgives with
  | [(_, t₁), (_, t₂), (_, t₃)], rfl, .cons hg₁ (.cons hg₂ (.cons hg₃ .nil)) =>
    obtain ⟨_, _, -, -, -, h₁⟩ := hturn [] t₁ _ rfl
    obtain ⟨_, _, -, -, -, h₂⟩ := hturn [(.fill 32 3, t₁)] t₂ _ rfl
    obtain ⟨_, _, -, -, -, h₃⟩ := hturn [(.fill 32 3, t₁), (.fill 32 3, t₂)] t₃ [] rfl
    have hmined₁ : mined t₁ = false := Replies.succeed_of_fared hg₁ (h₁.fared rfl)
    have hfirst : (turnsFor (.fill 32 3) [(.fill 32 3, t₁)]).any mined = false :=
      (Bool.or_false _).trans hmined₁
    have hmined₂ : mined t₂ = true := Replies.succeed_of_fared hg₂ (h₂.fared hfirst)
    have hboth : (turnsFor (.fill 32 3) [(.fill 32 3, t₁), (.fill 32 3, t₂)]).any mined = true := by
      show (mined t₁ || (mined t₂ || false)) = true
      rw [hmined₁, hmined₂]
      rfl
    have hany :
      (turnsFor (.fill 32 3) [(.fill 32 3, t₁), (.fill 32 3, t₂), (.fill 32 3, t₃)]).any mined = true := by
      show (mined t₁ || (mined t₂ || (mined t₃ || false))) = true
      rw [hmined₁, hmined₂]
      rfl
    have hsent₂ : sends t₂ = [.reveal (.fill 32 3) (seedOf usual.agent (.zero 32))] := by
      rw [h₂.sent, hfirst]
      rfl
    have hsent₃ : sends t₃ = [] := by rw [h₃.sent, hboth]; rfl
    have hput₁ : puts t₁ = [.fill 32 3] := by rw [h₁.put, hmined₁]; rfl
    have hput₂ : puts t₂ = [] := by rw [h₂.put, hfirst, hmined₂]; rfl
    have hput₃ : puts t₃ = [] := by rw [h₃.put, hboth]; rfl
    obtain ⟨hstatus, hpending⟩ := hrevealed.2 hany
    refine ⟨t₁, t₂, t₃, τ, c', hdrains, h₁.sent, hput₁, hsent₂, hput₂, hsent₃, hput₃, ?_, hc', hstatus, hpending⟩
    rw [hdeferred fun σ τ heq => congrArg (·.memory.deferred) heq.symm]
    show [] ++ (puts t₁ ++ (puts t₂ ++ (puts t₃ ++ []))) = [.fill 32 3]
    rw [hput₁, hput₂, hput₃]
    rfl

end CommitReveal.Agent
