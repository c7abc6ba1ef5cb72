import CommitReveal.Proofs.History

/-! Rules that come on top of a contract which every task keeps already. What a clause promises may be
broken while a task holds the turn, if it is mended before the task waits; and a clause may speak of
certain runs only, those in which nothing happens but what is good. -/
namespace CommitReveal.Agent

open Program

variable {s : Settings}

def System.Born (σ : System) : Prop :=
  ∀ e ∈ σ.shared.trace, ∀ j, e.task? = some j → j < σ.tasks.length

theorem System.Born.step {σ τ : System} (h : σ.Born) (hstep : System.Step s σ τ) : τ.Born := by
  intro e he k hk
  cases hstep with
  | began job free =>
    rw [List.length_append, List.length_singleton]
    rcases List.mem_cons.1 he with rfl | he
    · rw [← Option.some.inj hk]
      exact Nat.lt_succ_self _
    · exact Nat.lt_succ_of_lt (h e he k hk)
  | turn may task =>
    rw [List.length_set]
    exact h e he k hk
  | @answered i r next a υ may task served =>
    have hi : i < σ.tasks.length := (List.getElem?_eq_some_iff.1 task).1
    rw [List.length_append, List.length_set]
    rw [Shared.trace_note, served.trace] at he
    rcases List.mem_cons.1 he with rfl | he
    · rw [← Option.some.inj hk]
      exact Nat.lt_add_right _ hi
    · exact Nat.lt_add_right _ (h e he k hk)
  | finished may task =>
    rw [List.length_set]
    exact h e he k hk
  | crashed =>
    rw [List.length_map]
    rcases List.mem_cons.1 he with rfl | he
    · cases hk
    · exact h e he k hk

theorem System.Born.answersOf {σ : System} (h : σ.Born) {j : Nat} (hj : σ.tasks.length ≤ j) :
    answersOf j σ.shared.trace = [] := by
  have hothers : ∀ e ∈ σ.shared.trace, e.task? ≠ some j := fun e he heq =>
    absurd (h e he j heq) (by omega)
  rw [← List.append_nil σ.shared.trace, answersOf_others hothers, answersOf_nil]

theorem born_of_reachable {σ : System} (hr : System.Reachable s σ) : σ.Born := by
  obtain ⟨store, -, hleads⟩ := hr
  induction hleads with
  | refl => exact fun e he => nomatch he
  | tail _ hstep ih => exact ih.step hstep

theorem Apart.of_event {k : Nat} {σ τ : Shared} {e : Event} (htrace : τ.trace = e :: σ.trace)
    (he : e.task? ≠ some k) : Apart k σ τ := by
  refine ⟨[e], htrace, fun e' he' => ?_⟩
  rw [List.mem_singleton.1 he']
  exact he

/-- What a contract does not say of every run or of every moment. -/
structure Clause (C : Contract s) where
  /-- What may happen next in the runs spoken of. -/
  Good : Shared → Event → Prop
  Inv : Shared → Prop
  /-- What holds besides whenever no task holds the turn. -/
  Calm : Shared → Prop
  /-- What no step takes back, from an earlier state to a later one. -/
  Onward : Shared → Shared → Prop
  refl (σ : Shared) : Onward σ σ
  trans {σ τ υ : Shared} : Onward σ τ → Onward τ υ → Onward σ υ
  /-- What a task may ask in a state. -/
  Allows : Nat → Request → Shared → Prop
  /-- What a task needs for its next turn. -/
  Ready : Nat → Routine → Shared → Prop
  ready_apart {i : Nat} {r : Routine} {σ τ : Shared} :
    Ready i r σ → Inv τ → Onward σ τ → Apart i σ τ → Ready i r τ
  ready_spawned {i j : Nat} {r : Routine} {σ τ : Shared} :
    Allows i (.spawn r) σ → answersOf j τ.trace = [] → Ready j r τ
  served {i : Nat} {r : Request} {a : r.Answer} {σ τ : Shared} :
    C.Inv σ → Inv σ → C.Allows i r σ → Allows i r σ → Served r a σ τ → Good σ (.answered i r a) →
      C.Since σ (τ.note (.answered i r a)) →
      Inv (τ.note (.answered i r a)) ∧ Onward σ (τ.note (.answered i r a))
  began {i : Nat} {job : Job} {σ : Shared} : C.Inv σ → Inv σ → Good σ (.began i job) →
    Inv (σ.note (.began i job)) ∧ Onward σ (σ.note (.began i job)) ∧
      (Calm σ → Calm (σ.note (.began i job)))
  crashed {σ : Shared} : C.Inv σ → Inv σ → Good σ .crashed →
    Inv (σ.crash s) ∧ Onward σ (σ.crash s) ∧ Calm (σ.crash s)

namespace Clause

variable {C : Contract s} (K : Clause C) {i j : Nat} {σ τ υ : Shared}

/-- A state in which contract and clause hold, onward from another. -/
structure Since (σ τ : Shared) : Prop where
  base : C.Since σ τ
  inv : K.Inv τ
  onward : K.Onward σ τ

variable {K}

theorem Since.refl (h : K.Since σ τ) : K.Since τ τ :=
  ⟨⟨h.base.1, C.refl τ⟩, h.inv, K.refl τ⟩

theorem Since.trans (h : K.Since σ τ) (h' : K.Since τ υ) : K.Since σ υ :=
  ⟨⟨h'.base.1, C.trans h.base.2 h'.base.2⟩, h'.inv, K.trans h.onward h'.onward⟩

variable (K)

/-- What task `i` lives in. A task that waits leaves a calm state, and finds one. -/
abbrev around (i : Nat) : Surroundings interface where
  State := Shared
  Allows r σ := K.Allows i r σ ∧ (r.isWait → K.Calm σ)
  Meanwhile r σ τ := τ = σ ∨ r.isWait ∧ K.Since σ τ ∧ K.Calm τ ∧ Apart i σ τ
  Served r a σ υ := ∃ τ, Agent.Served r a σ τ ∧ υ = τ.note (.answered i r a) ∧
    K.Good σ (.answered i r a) ∧ K.Since σ υ

def Next (i : Nat) (next : Option Routine) (σ : Shared) : Prop :=
  K.Calm σ ∧ ∀ r, next = some r → K.Ready i r σ

structure Kept : Prop where
  turn (i : Nat) (r : Routine) {σ : Shared} : K.Since σ σ → K.Calm σ → K.Ready i r σ →
    (r.turn s).Upholds (K.around i) (K.Next i) σ
  job (i : Nat) (j : Job) {σ : Shared} : K.Since σ σ → K.Calm σ → answersOf i σ.trace = [] →
    (j.program s).Upholds (K.around i) (K.Next i) σ

theorem carries (i : Nat) : (K.around i).Carries K.Since where
  right := Since.refl
  trans := Since.trans
  meanwhile := by
    rintro r σ τ hσ (rfl | ⟨-, hsince, -⟩)
    · exact hσ
    · exact hsince
  served := fun _ ⟨_, _, _, _, hsince⟩ => hsince

/-- What is known of a task in a state of the system. -/
def Fine (σ : System) (i : Nat) : Task → Prop
  | .ready turn => σ.holder ≠ some i ∧ ∀ τ, K.Since σ.shared τ → K.Calm τ → Apart i σ.shared τ →
      turn.Upholds (K.around i) (K.Next i) τ
  | .running rest => (σ.holder = some i ∧ rest.Upholds (K.around i) (K.Next i) σ.shared) ∨
      (σ.holder ≠ some i ∧ System.isWaiting rest ∧ ∃ σ₀, K.Since σ₀ σ.shared ∧ Apart i σ₀ σ.shared ∧
        rest.Upholds (K.around i) (K.Next i) σ₀)
  | .ended => True

structure Holds (σ : System) : Prop where
  base : C.Holds σ
  inv : K.Inv σ.shared
  calm : σ.holder = none → K.Calm σ.shared
  fine : ∀ i t, σ.tasks[i]? = some t → K.Fine σ i t
  born : σ.Born

variable {K}

theorem Holds.since {σ : System} (h : K.Holds σ) : K.Since σ.shared σ.shared :=
  ⟨⟨h.base.inv, C.refl _⟩, h.inv, K.refl _⟩

theorem Fine.other {σ τ : System} {t : Task} (h : K.Fine σ j t) (hσ : σ.holder ≠ some j)
    (hτ : τ.holder ≠ some j) (hsince : K.Since σ.shared τ.shared)
    (hapart : Apart j σ.shared τ.shared) : K.Fine τ j t := by
  cases t with
  | ready turn => exact ⟨hτ, fun υ hυ hcalm hon => h.2 υ (hsince.trans hυ) hcalm (hapart.trans hon)⟩
  | running rest =>
    obtain ⟨-, hwait, σ₀, hσ₀, hapart₀, hup⟩ := h.resolve_left fun hh => hσ hh.1
    exact .inr ⟨hτ, hwait, σ₀, hσ₀.trans hsince, hapart₀.trans hapart, hup⟩
  | ended => trivial

theorem fine_running {σ : System} {rest : Activity (Option Routine)}
    (hholder : σ.holder = System.holderAfter i rest) (hsince : K.Since σ.shared σ.shared)
    (hup : rest.Upholds (K.around i) (K.Next i) σ.shared) : K.Fine σ i (.running rest) := by
  rcases System.holderAfter_cases i rest with ⟨hnone, hwait⟩ | hsome
  · refine .inr ⟨?_, hwait, σ.shared, hsince, Apart.refl i _, hup⟩
    rw [hholder, hnone]
    exact fun heq => nomatch heq
  · exact .inl ⟨hholder.trans hsome, hup⟩

theorem calm_of_waiting {σ : Shared} {rest : Activity (Option Routine)} (hwait : System.isWaiting rest)
    (hup : rest.Upholds (K.around i) (K.Next i) σ) : K.Calm σ := by
  cases rest with
  | done a => cases hwait
  | ask r next => exact (hup σ (.inl rfl)).1.2 hwait

theorem calm_after {σ : System} {rest : Activity (Option Routine)}
    (hholder : σ.holder = System.holderAfter i rest)
    (hup : rest.Upholds (K.around i) (K.Next i) σ.shared) (hnone : σ.holder = none) :
    K.Calm σ.shared := by
  rcases System.holderAfter_cases i rest with ⟨-, hwait⟩ | hsome
  · exact calm_of_waiting hwait hup
  · rw [hholder, hsome] at hnone
    cases hnone

theorem Holds.asking {σ : System} (h : K.Holds σ) (may : σ.MayRun i) {r : Request}
    {next : r.Answer → Activity (Option Routine)} (task : σ.tasks[i]? = some (.running (.ask r next))) :
    (K.Allows i r σ.shared ∧ (r.isWait → K.Calm σ.shared)) ∧ ∀ a υ,
      (K.around i).Served r a σ.shared υ → (next a).Upholds (K.around i) (K.Next i) υ := by
  rcases h.fine i _ task with ⟨-, hup⟩ | ⟨hholder, hwait, σ₀, hσ₀, hapart, hup⟩
  · exact hup σ.shared (.inl rfl)
  · have hnone : σ.holder = none := may.resolve_right hholder
    exact hup σ.shared (.inr ⟨hwait, hσ₀, h.calm hnone, hapart⟩)

theorem Holds.ending {σ : System} (h : K.Holds σ) {next : Option Routine}
    (task : σ.tasks[i]? = some (.running (.done next))) : K.Next i next σ.shared := by
  rcases h.fine i _ task with ⟨-, hup⟩ | ⟨-, hwait, -⟩
  · exact hup
  · cases hwait

theorem holderAfter_ne {rest : Activity (Option Routine)} (hij : j ≠ i) :
    System.holderAfter i rest ≠ some j := by
  rcases System.holderAfter_cases i rest with ⟨hnone, -⟩ | hsome
  · rw [hnone]
    exact fun heq => nomatch heq
  · rw [hsome]
    exact fun heq => hij (Option.some.inj heq).symm

theorem Holds.fine_set {σ τ : System} (h : K.Holds σ) (hσ : ∀ k, k ≠ i → σ.holder ≠ some k)
    (hτ : ∀ k, k ≠ i → τ.holder ≠ some k) (hsince : K.Since σ.shared τ.shared)
    (hapart : ∀ k, k ≠ i → Apart k σ.shared τ.shared) {t : Task} (ht : K.Fine τ i t) {k : Nat}
    {t' : Task} (hk : (σ.tasks.set i t)[k]? = some t') : K.Fine τ k t' := by
  by_cases hki : k = i
  · subst hki
    have hlt : k < σ.tasks.length := by simpa using (List.getElem?_eq_some_iff.1 hk).1
    rw [List.getElem?_set_self hlt] at hk
    obtain rfl := Option.some.inj hk
    exact ht
  · rw [List.getElem?_set_ne (Ne.symm hki)] at hk
    exact (h.fine k t' hk).other (hσ k hki) (hτ k hki) hsince (hapart k hki)

theorem fine_began (hkept : K.Kept) {σ τ : System} (h : K.Holds σ) (free : σ.holder = none) (job : Job)
    (hshared : τ.shared = σ.shared.note (.began σ.tasks.length job)) (hholder : τ.holder = none)
    (hsince : K.Since σ.shared τ.shared) {k : Nat} {t : Task}
    (ht : (σ.tasks ++ [.ready (job.program s)])[k]? = some t) : K.Fine τ k t := by
  have htrace : τ.shared.trace = .began σ.tasks.length job :: σ.shared.trace := by rw [hshared]; rfl
  by_cases hlt : k < σ.tasks.length
  · rw [List.getElem?_append_left hlt] at ht
    have hapart : Apart k σ.shared τ.shared :=
      Apart.of_event htrace fun heq => (Nat.ne_of_lt hlt) (Option.some.inj heq).symm
    exact (h.fine k t ht).other (by simp [free]) (by simp [hholder]) hsince hapart
  · rw [List.getElem?_append_right (by omega), List.getElem?_singleton] at ht
    split at ht
    · obtain rfl := Option.some.inj ht
      refine ⟨by simp [hholder], fun υ hυ hcalm hon => hkept.job k job hυ.refl hcalm ?_⟩
      -- the beginning of a job is no answer, and before it nothing was heard of the task
      have hnew : answersOf k τ.shared.trace = answersOf k σ.shared.trace := by
        rw [htrace]
        rfl
      rw [hon.answersOf, hnew]
      exact h.born.answersOf (by omega)
    · cases ht

theorem fine_answered (hkept : K.Kept) {σ τ : System} (h : K.Holds σ) (may : σ.MayRun i) {r : Request}
    {next : r.Answer → Activity (Option Routine)} (task : σ.tasks[i]? = some (.running (.ask r next)))
    {a : r.Answer} (htrace : τ.shared.trace = .answered i r a :: σ.shared.trace)
    (hholder : τ.holder = System.holderAfter i (next a)) (hallows : K.Allows i r σ.shared)
    (hsince : K.Since σ.shared τ.shared)
    (hrest : (next a).Upholds (K.around i) (K.Next i) τ.shared) {k : Nat} {t : Task}
    (ht : (σ.tasks.set i (.running (next a)) ++ System.spawned s r)[k]? = some t) : K.Fine τ k t := by
  have hi : i < σ.tasks.length := (List.getElem?_eq_some_iff.1 task).1
  have hothers (k : Nat) (hk : k ≠ i) : τ.holder ≠ some k := by
    rw [hholder]
    exact holderAfter_ne hk
  have hapart (k : Nat) (hk : k ≠ i) : Apart k σ.shared τ.shared :=
    Apart.of_event htrace fun heq => hk (Option.some.inj heq).symm
  by_cases hlt : k < σ.tasks.length
  · rw [List.getElem?_append_left (by rwa [List.length_set])] at ht
    exact h.fine_set (fun k hk => Contract.MayRun.other may hk) hothers hsince hapart
      (fine_running hholder hsince.refl hrest) ht
  · rw [List.getElem?_append_right (by rw [List.length_set]; omega)] at ht
    obtain ⟨ρ, rfl, rfl⟩ := System.mem_spawned (List.mem_of_getElem? ht)
    have hki : k ≠ i := by omega
    refine ⟨hothers k hki, fun ω hω hcalm hon => hkept.turn k ρ hω.refl hcalm ?_⟩
    refine K.ready_spawned hallows ?_
    rw [hon.answersOf, (hapart k hki).answersOf]
    exact h.born.answersOf (by omega)

theorem fine_after (hkept : K.Kept) {σ : System} {next : Option Routine} (hholder : σ.holder = none)
    (hnext : K.Next i next σ.shared) : K.Fine σ i (.after s next) := by
  cases next with
  | none => trivial
  | some r =>
    refine ⟨by simp [hholder], fun υ hυ hcalm hon => hkept.turn i r hυ.refl hcalm ?_⟩
    exact K.ready_apart (hnext.2 r rfl) hυ.inv hυ.onward hon

theorem Holds.step (hbase : C.Kept) (hkept : K.Kept) {σ τ : System} (h : K.Holds σ)
    (hstep : System.Step s σ τ)
    (hgood : ∀ e, τ.shared.trace = e :: σ.shared.trace → K.Good σ.shared e) :
    K.Holds τ ∧ K.Since σ.shared τ.shared := by
  obtain ⟨hbaseτ, hbaseOnward⟩ := h.base.step hbase hstep
  have hbaseSince : C.Since σ.shared τ.shared := ⟨hbaseτ.inv, hbaseOnward⟩
  have hborn : τ.Born := h.born.step hstep
  cases hstep with
  | began job free =>
    obtain ⟨hinv, honward, hcalm⟩ := K.began h.base.inv h.inv (hgood _ rfl)
    have hsince : K.Since σ.shared (σ.shared.note (.began σ.tasks.length job)) :=
      ⟨hbaseSince, hinv, honward⟩
    exact ⟨⟨hbaseτ, hinv, fun _ => hcalm (h.calm free),
      fun _ _ => fine_began hkept h free job rfl rfl hsince, hborn⟩, hsince⟩
  | @turn i p may task =>
    have hfine := h.fine i _ task
    have hnone : σ.holder = none := may.resolve_right hfine.1
    have hup := hfine.2 σ.shared h.since (h.calm hnone) (Apart.refl i _)
    refine ⟨⟨hbaseτ, h.inv, calm_after rfl hup, fun k t ht => ?_, hborn⟩, h.since⟩
    exact h.fine_set (τ := ⟨σ.shared, _, System.holderAfter i p⟩)
      (fun k hk => Contract.MayRun.other may hk) (fun k hk => holderAfter_ne hk) h.since
      (fun k _ => Apart.refl k _) (fine_running rfl h.since hup) ht
  | @answered i r next a υ may task served =>
    obtain ⟨⟨hallows, -⟩, hnext⟩ := h.asking may task
    have hbaseAllows := ((h.base.fine i _ task).1 σ.shared (Contract.meanwhile_refl h.base.inv)).1
    have htrace : (υ.note (.answered i r a)).trace = .answered i r a :: σ.shared.trace :=
      congrArg _ served.trace
    have hg := hgood _ htrace
    obtain ⟨hinv, honward⟩ := K.served h.base.inv h.inv hbaseAllows hallows served hg hbaseSince
    have hsince : K.Since σ.shared (υ.note (.answered i r a)) := ⟨hbaseSince, hinv, honward⟩
    have hrest := hnext a _ ⟨υ, served, rfl, hg, hsince⟩
    exact ⟨⟨hbaseτ, hinv, calm_after rfl hrest, fun _ _ =>
      fine_answered hkept h may task htrace rfl hallows hsince hrest, hborn⟩, hsince⟩
  | @finished i next may task =>
    have hnext : K.Next i next σ.shared := h.ending task
    refine ⟨⟨hbaseτ, h.inv, fun _ => hnext.1, fun k t ht => ?_, hborn⟩, h.since⟩
    exact h.fine_set (τ := ⟨σ.shared, _, none⟩) (fun k hk => Contract.MayRun.other may hk)
      (fun _ _ => by simp) h.since (fun k _ => Apart.refl k _) (fine_after hkept rfl hnext) ht
  | crashed =>
    obtain ⟨hinv, honward, hcalm⟩ := K.crashed h.base.inv h.inv (hgood _ rfl)
    refine ⟨⟨hbaseτ, hinv, fun _ => hcalm, fun k t ht => ?_, hborn⟩, ⟨hbaseSince, hinv, honward⟩⟩
    rw [List.getElem?_map] at ht
    obtain ⟨_, _, rfl⟩ := Option.map_eq_some_iff.1 ht
    trivial

/-- A step of the runs spoken of. -/
def Step (K : Clause C) (σ τ : System) : Prop :=
  System.Step s σ τ ∧ ∀ e, τ.shared.trace = e :: σ.shared.trace → K.Good σ.shared e

theorem Holds.leads (hbase : C.Kept) (hkept : K.Kept) {σ τ : System} (h : K.Holds σ)
    (hleads : Relation.ReflTransGen K.Step σ τ) : K.Holds τ ∧ K.Since σ.shared τ.shared := by
  induction hleads with
  | refl => exact ⟨h, h.since⟩
  | tail _ hstep ih =>
    obtain ⟨hτ, hsince⟩ := ih.1.step hbase hkept hstep.1 hstep.2
    exact ⟨hτ, ih.2.trans hsince⟩

theorem holds_ended {σ : System} (hbase : C.Holds σ) (hinv : K.Inv σ.shared) (hcalm : K.Calm σ.shared)
    (hended : ∀ t ∈ σ.tasks, t = .ended) (hborn : σ.Born) : K.Holds σ := by
  refine ⟨hbase, hinv, fun _ => hcalm, fun i t ht => ?_, hborn⟩
  rw [hended t (List.mem_of_getElem? ht)]
  trivial

end Clause

end CommitReveal.Agent
