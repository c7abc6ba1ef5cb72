import CommitReveal.Proofs.Interleaving
import CommitReveal.Proofs.Obligation

/-! Proving something of all interleavings task by task. A contract says what may be asked when, and
keeps an invariant as long as only that is asked. If every task by itself asks no more, whatever the
others do while it waits, the invariant holds in every state that can be reached. -/
namespace CommitReveal.Agent

variable {s : Settings}

structure Contract (s : Settings) where
  Inv : Shared → Prop
  /-- What no step takes back, from an earlier state to a later one. -/
  Onward : Shared → Shared → Prop
  refl (σ : Shared) : Onward σ σ
  trans {σ τ υ : Shared} : Onward σ τ → Onward τ υ → Onward σ υ
  /-- What a task may ask in a state. -/
  Allows : Nat → Request → Shared → Prop
  /-- What a routine needs for its next turn. -/
  Ready : Routine → Shared → Prop
  ready_onward {r : Routine} {σ τ : Shared} : Ready r σ → Onward σ τ → Ready r τ
  ready_spawned {i : Nat} {r : Routine} {σ : Shared} : Allows i (.spawn r) σ → Ready r σ
  served {i : Nat} {r : Request} {a : r.Answer} {σ τ : Shared} :
    Inv σ → Allows i r σ → Served r a σ τ →
      Inv (τ.note (.answered i r a)) ∧ Onward σ (τ.note (.answered i r a))
  began {i : Nat} {job : Job} {σ : Shared} :
    Inv σ → Inv (σ.note (.began i job)) ∧ Onward σ (σ.note (.began i job))
  crashed {σ : Shared} : Inv σ → Inv (σ.crash s) ∧ Onward σ (σ.crash s)

/-- All that has happened from one state to another concerns other tasks. -/
def Apart (i : Nat) (σ τ : Shared) : Prop :=
  ∃ between : Trace, τ.trace = between ++ σ.trace ∧ ∀ e ∈ between, e.task? ≠ some i

theorem Apart.refl (i : Nat) (σ : Shared) : Apart i σ σ :=
  ⟨[], rfl, fun _ he => nomatch he⟩

theorem Apart.trans {i : Nat} {σ τ υ : Shared} (h : Apart i σ τ) (h' : Apart i τ υ) : Apart i σ υ := by
  obtain ⟨b, hb, hbi⟩ := h
  obtain ⟨b', hb', hbi'⟩ := h'
  refine ⟨b' ++ b, by rw [hb', hb, List.append_assoc], fun e he => ?_⟩
  rcases List.mem_append.1 he with he | he
  · exact hbi' e he
  · exact hbi e he

theorem Apart.suffix {i : Nat} {σ τ : Shared} (h : Apart i σ τ) : σ.trace <:+ τ.trace := by
  obtain ⟨between, htrace, -⟩ := h
  exact ⟨between, htrace.symm⟩

namespace Contract

variable (C : Contract s)

/-- What task `i` lives in: where it waits, the others keep the contract. -/
abbrev around (i : Nat) : Surroundings interface where
  State := Shared
  Allows := C.Allows i
  Meanwhile r σ τ := if r.isWait then C.Inv τ ∧ C.Onward σ τ ∧ Apart i σ τ else τ = σ
  Served r a σ υ := ∃ τ, Agent.Served r a σ τ ∧ υ = τ.note (.answered i r a) ∧
    C.Inv υ ∧ C.Onward σ υ

def Next (next : Option Routine) (σ : Shared) : Prop :=
  ∀ r, next = some r → C.Ready r σ

structure Kept : Prop where
  turn (i : Nat) (r : Routine) {σ : Shared} :
    C.Inv σ → C.Ready r σ → (r.turn s).Upholds (C.around i) C.Next σ
  job (i : Nat) (j : Job) {σ : Shared} :
    C.Inv σ → (j.program s).Upholds (C.around i) C.Next σ

variable {C} {i j : Nat}

theorem meanwhile_refl {r : Request} {σ : Shared} (hinv : C.Inv σ) : (C.around i).Meanwhile r σ σ := by
  dsimp only
  split
  · exact ⟨hinv, C.refl σ, Apart.refl i σ⟩
  · trivial

def Since (C : Contract s) (σ τ : Shared) : Prop :=
  C.Inv τ ∧ C.Onward σ τ

theorem carries (C : Contract s) (i : Nat) : (C.around i).Carries C.Since where
  right h := ⟨h.1, C.refl _⟩
  trans h h' := ⟨h'.1, C.trans h.2 h'.2⟩
  meanwhile {r σ τ} hσ h := by
    dsimp only at h
    split at h
    · exact ⟨h.1, h.2.1⟩
    · exact h ▸ hσ
  served := fun _ ⟨_, _, _, hinv, honward⟩ => ⟨hinv, honward⟩

theorem upholds_waiting {α : Type} {p : Activity α} {Q : α → Shared → Prop} {σ τ : Shared}
    (hwait : System.isWaiting p) (h : p.Upholds (C.around i) Q σ) (honward : C.Onward σ τ)
    (hapart : Apart i σ τ) :
    p.Upholds (C.around i) Q τ := by
  cases p with
  | done a => cases hwait
  | ask r next =>
    have hr : r.isWait = true := hwait
    intro υ hυ
    apply h υ
    simp only [hr, if_true] at hυ ⊢
    exact ⟨hυ.1, C.trans honward hυ.2.1, hapart.trans hυ.2.2⟩

variable (C)

/-- What is known of a task in a state of the system. -/
def Fine (σ : System) (i : Nat) : Task → Prop
  | .ready turn => ∀ τ, C.Inv τ → C.Onward σ.shared τ → turn.Upholds (C.around i) C.Next τ
  | .running rest => rest.Upholds (C.around i) C.Next σ.shared ∧
      (σ.holder = some i ∨ System.isWaiting rest)
  | .ended => True

structure Holds (σ : System) : Prop where
  inv : C.Inv σ.shared
  fine : ∀ i t, σ.tasks[i]? = some t → C.Fine σ i t

variable {C}

theorem Fine.other {σ τ : System} {t : Task} (h : C.Fine σ j t) (hholder : σ.holder ≠ some j)
    (honward : C.Onward σ.shared τ.shared)
    (hapart : Apart j σ.shared τ.shared) : C.Fine τ j t := by
  cases t with
  | ready turn => exact fun υ hυ hon => h υ hυ (C.trans honward hon)
  | running rest =>
    have hwait : System.isWaiting rest = true := h.2.resolve_left hholder
    exact ⟨upholds_waiting hwait h.1 honward hapart, .inr hwait⟩
  | ended => trivial

theorem MayRun.other {σ : System} (may : σ.MayRun i) (hij : j ≠ i) : σ.holder ≠ some j := by
  rcases may with h | h <;> rw [h]
  · exact fun h => nomatch h
  · exact fun h => hij (Option.some.inj h).symm

/-- What is left of a turn that was allowed to begin is fine. -/
theorem fine_after (hkept : C.Kept) {σ : System} {next : Option Routine}
    (hnext : C.Next next σ.shared) : C.Fine σ i (.after s next) := by
  cases next with
  | none => trivial
  | some r =>
    intro τ hinv honward
    exact hkept.turn i r hinv (C.ready_onward (hnext r rfl) honward)

theorem Holds.step (hkept : C.Kept) {σ τ : System} (h : C.Holds σ) (hstep : System.Step s σ τ) :
    C.Holds τ ∧ C.Onward σ.shared τ.shared := by
  cases hstep with
  | began job free =>
    have hbegan : C.Inv (σ.shared.note (.began σ.tasks.length job)) ∧
        C.Onward σ.shared (σ.shared.note (.began σ.tasks.length job)) := C.began h.inv
    obtain ⟨hinv, honward⟩ := hbegan
    refine ⟨⟨hinv, fun j t ht => ?_⟩, honward⟩
    by_cases hj : j < σ.tasks.length
    · rw [List.getElem?_append_left hj] at ht
      refine (h.fine j t ht).other (by simp [free]) honward ⟨[_], rfl, fun e he => ?_⟩
      rw [List.mem_singleton] at he
      subst he
      simp only [Event.task?, ne_eq, Option.some.injEq]
      omega
    · rw [List.getElem?_append_right (by omega), List.getElem?_singleton] at ht
      split at ht
      · obtain rfl := Option.some.inj ht
        exact fun υ hυ _ => hkept.job j job hυ
      · cases ht
  | @turn i p may task =>
    refine ⟨⟨h.inv, fun j t ht => ?_⟩, C.refl _⟩
    by_cases hj : j = i
    · subst hj
      rw [List.getElem?_set_self (List.getElem?_eq_some_iff.1 task).1] at ht
      obtain rfl := Option.some.inj ht
      exact ⟨h.fine j _ task _ h.inv (C.refl _), (System.holderAfter_cases j p).symm.imp_right And.right⟩
    · rw [List.getElem?_set_ne (Ne.symm hj)] at ht
      exact (h.fine j t ht).other (MayRun.other may hj) (C.refl _) (Apart.refl j _)
  | @answered i r next a υ may task served =>
    have hi : i < σ.tasks.length := (List.getElem?_eq_some_iff.1 task).1
    obtain ⟨hallows, hnext⟩ := (h.fine i _ task).1 σ.shared (meanwhile_refl h.inv)
    obtain ⟨hinv, honward⟩ := C.served h.inv hallows served
    have hrest := hnext a _ ⟨υ, served, rfl, hinv, honward⟩
    refine ⟨⟨hinv, fun j t ht => ?_⟩, honward⟩
    by_cases hj : j < σ.tasks.length
    · rw [List.getElem?_append_left (by rwa [List.length_set])] at ht
      by_cases hji : j = i
      · subst hji
        rw [List.getElem?_set_self hi] at ht
        obtain rfl := Option.some.inj ht
        exact ⟨hrest, (System.holderAfter_cases j (next a)).symm.imp_right And.right⟩
      · rw [List.getElem?_set_ne (Ne.symm hji)] at ht
        refine (h.fine j t ht).other (MayRun.other may hji) honward
          ⟨[_], congrArg _ served.trace, fun e he => ?_⟩
        rw [List.mem_singleton] at he
        subst he
        exact fun heq => hji (Option.some.inj heq).symm
    · have hmem : t ∈ System.spawned s r := by
        rw [List.getElem?_append_right (by rw [List.length_set]; omega)] at ht
        exact List.mem_of_getElem? ht
      obtain ⟨ρ, rfl, rfl⟩ := System.mem_spawned hmem
      have hready := C.ready_spawned hallows
      exact fun ω hω hon => hkept.turn j ρ hω (C.ready_onward hready (C.trans honward hon))
  | @finished i next may task =>
    have hnext : C.Next next σ.shared := (h.fine i _ task).1
    refine ⟨⟨h.inv, fun j t ht => ?_⟩, C.refl _⟩
    by_cases hj : j = i
    · subst hj
      rw [List.getElem?_set_self (List.getElem?_eq_some_iff.1 task).1] at ht
      obtain rfl := Option.some.inj ht
      exact fine_after hkept hnext
    · rw [List.getElem?_set_ne (Ne.symm hj)] at ht
      exact (h.fine j t ht).other (MayRun.other may hj) (C.refl _) (Apart.refl j _)
  | crashed =>
    obtain ⟨hinv, honward⟩ := C.crashed h.inv
    refine ⟨⟨hinv, fun j t ht => ?_⟩, honward⟩
    rw [List.getElem?_map] at ht
    obtain ⟨_, _, rfl⟩ := Option.map_eq_some_iff.1 ht
    trivial

/-- The invariant is carried through every run, and no step of it is taken back. -/
theorem Holds.leads (hkept : C.Kept) {σ τ : System} (h : C.Holds σ) (hleads : System.Leads s σ τ) :
    C.Holds τ ∧ C.Onward σ.shared τ.shared := by
  induction hleads with
  | refl => exact ⟨h, C.refl _⟩
  | tail _ hstep ih =>
    obtain ⟨hτ, hon⟩ := ih.1.step hkept hstep
    exact ⟨hτ, C.trans ih.2 hon⟩

theorem holds_start {store : Store.Backend} (hinv : C.Inv (System.start s store).shared) :
    C.Holds (System.start s store) :=
  ⟨hinv, fun i t ht => by simp [System.start] at ht⟩

end Contract

end CommitReveal.Agent
