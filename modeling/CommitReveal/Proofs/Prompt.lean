import CommitReveal.Proofs.Legible
import CommitReveal.Proofs.Passage

/-! A task and its store. Whoever else is at work, what a task asks of the store is answered at once, so that an
operation of the repository comes to what it would come to by itself. -/
namespace CommitReveal.Agent

open Program
open Repository (Tally Tries tally)
open Store (Backend StoreError)

variable {α β : Type} {t : Transcript interface}

/-- A task among others that do no more than this while it waits. -/
abbrev amid (O : Shared → Shared → Prop) : Surroundings interface where
  State := Shared
  Allows _ _ := True
  Meanwhile r σ τ := if r.isWait then O σ τ else τ = σ
  Served := Agent.Served

/-- Surroundings where a task that does not wait is answered at once; `view` is what it shares with others. -/
structure Prompt (E : Surroundings interface) (view : E.State → Shared) : Prop where
  meanwhile {r : Request} {σ τ : E.State} : r.isWait = false → E.Meanwhile r σ τ → τ = σ
  served {r : Request} {a : r.Answer} {σ τ : E.State} :
    E.Served r a σ τ → Agent.Served r a (view σ) (view τ)
  still {r : Request} {a : r.Answer} {σ τ : E.State} : E.Served r a σ τ → view τ = view σ → τ = σ

theorem prompt_among : Prompt among Passage.shared where
  meanwhile hbusy := (meanwhile_busy hbusy).1
  served := And.left
  still hserved hsame := Passage.ext hsame hserved.2

theorem prompt_amid (O : Shared → Shared → Prop) : Prompt (amid O) id where
  meanwhile {r σ τ} hbusy h := by
    rw [show (amid O).Meanwhile r σ τ = if r.isWait = true then O σ τ else τ = σ from rfl, hbusy] at h
    exact h
  served := id
  still _ hsame := hsame

theorem Served.tally {r : Repository.Request} {a : r.Answer} {σ τ : Shared} (h : Served (.store r) a σ τ)
    (failed : Bool) :
    Tally.Served r a ⟨σ.store, failed⟩ ⟨τ.store, failed || storeFailed ⟨.store r, a⟩⟩ := by
  cases r with
  | clock =>
    obtain rfl : τ = σ := h
    exact congrArg (Tally.mk τ.store) (Bool.or_false failed)
  | call c =>
    cases a with
    | error cause => exact Bool.or_true failed
    | ok value =>
      rcases h with ⟨_, heq, _⟩ | ⟨heq | ⟨_, heq⟩, rfl⟩
      · cases heq
      · exact ⟨Except.ok.inj heq, congrArg (Tally.mk _) (Bool.or_false failed)⟩
      · cases heq

variable {E : Surroundings interface} {view : E.State → Shared} {σ τ : E.State}

theorem endsAfter_interpret (hE : Prompt E view) {p : Program Repository.interface α} {Q : α → Tally → Prop}
    {failed : Bool} {x : α} (hp : p.Upholds tally Q ⟨(view σ).store, failed⟩)
    (hends : (p.interpret fun r => ask (.store r)).EndsAfter E σ t x τ) :
    Q x ⟨(view τ).store, failed || t.any storeFailed⟩ := by
  induction p generalizing σ t failed with
  | done a =>
    obtain ⟨rfl, rfl, rfl⟩ := endsAfter_done.1 hends
    rw [List.any_nil, Bool.or_false]
    exact hp
  | ask r next ih =>
    obtain ⟨a, u, υ, ω, rfl, hmeanwhile, hserved, hrest⟩ := endsAfter_ask.1 hends
    obtain rfl := hE.meanwhile rfl hmeanwhile
    have hnext := (hp _ rfl).2 a _ ((hE.served hserved).tally failed)
    rw [List.any_cons, ← Bool.or_assoc]
    exact ih a hnext hrest

theorem endsAfter_callRepository (hE : Prompt E view) {x : Repository.Action α} {Q : α → Backend → Prop}
    {answer : Except StoreError α} (hx : Tries x Q ⟨(view σ).store, false⟩)
    (hends : (callRepository x).EndsAfter E σ t answer τ) :
    Outcome (fun a b => Q a b ∧ Unfailed t) (fun _ _ => ∃ y ∈ t, storeFailed y = true) answer
      (view τ).store := by
  have hend := endsAfter_interpret hE hx hends
  rw [Bool.false_or] at hend
  cases answer with
  | ok a =>
    refine ⟨hend.1, fun y hy => ?_⟩
    simpa using List.any_eq_false.1 hend.2 y hy
  | error cause => exact List.any_eq_true.1 hend

theorem endsAfter_repository (hE : Prompt E view) {x : Repository.Action α} {Q : α → Backend → Prop}
    {result : Except AgentError α} (hx : Tries x Q ⟨(view σ).store, false⟩)
    (hends : (repository x).run.EndsAfter E σ t result τ) :
    Outcome (fun a b => Q a b ∧ Unfailed t) (fun _ _ => ∃ y ∈ t, storeFailed y = true) result
      (view τ).store := by
  obtain ⟨t₁, t₂, answer, υ, rfl, hcall, hrest⟩ := EndsAfter.of_bind hends
  obtain ⟨rfl, rfl, rfl⟩ := endsAfter_done.1 hrest
  have hend := endsAfter_callRepository hE hx hcall
  rw [List.append_nil]
  cases answer <;> exact hend

theorem past_repository (hE : Prompt E view) {x : Repository.Action α} {f : α → Attempt β}
    {Q : α → Backend → Prop} {result : Except AgentError β} (hx : Tries x Q ⟨(view σ).store, false⟩)
    (hfair : Unfailed t) (hends : (repository x >>= f).run.EndsAfter E σ t result τ) :
    ∃ t₁ t₂ a υ, t = t₁ ++ t₂ ∧ (repository x).run.EndsAfter E σ t₁ (.ok a) υ ∧ Q a (view υ).store ∧
      Unfailed t₂ ∧ (f a).run.EndsAfter E υ t₂ result τ := by
  rcases hends.of_attempt with ⟨cause, rfl, hfails⟩ | ⟨t₁, t₂, a, υ, rfl, hdoes, hrest⟩
  · obtain ⟨y, hy, hfailed⟩ := endsAfter_repository hE hx hfails
    rw [hfair y hy] at hfailed
    cases hfailed
  · exact ⟨t₁, t₂, a, υ, rfl, hdoes, (endsAfter_repository hE hx hdoes).1,
      fun y hy => hfair y (List.mem_append_right t₁ hy), hrest⟩

theorem past_notify (hE : Prompt E view) {n : Notice} {f : Unit → Activity α} {a : α}
    (hends : ((notify n).bind f).EndsAfter E σ t a τ) :
    ∃ u, t = ⟨.notify n, ()⟩ :: u ∧ (f ()).EndsAfter E σ u a τ := by
  obtain ⟨⟨⟩, u, υ, ω, rfl, hmeanwhile, hserved, hrest⟩ := endsAfter_ask.1 hends
  obtain rfl := hE.meanwhile rfl hmeanwhile
  obtain rfl := hE.still hserved (hE.served hserved)
  exact ⟨u, rfl, hrest⟩

end CommitReveal.Agent
