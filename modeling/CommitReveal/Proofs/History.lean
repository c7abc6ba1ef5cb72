import CommitReveal.Proofs.Contract
import CommitReveal.Proofs.Transcript

/-! What one task has been told. The answers to a task make up a transcript of its own, which no other
task adds to. What a task asks by its own transcript alone, it asks by that in every interleaving. -/
namespace CommitReveal.Agent

open Program

variable {s : Settings} {i : Nat} {t : Trace}

def Event.exchangeOf? (i : Nat) : Event → Option (Exchange interface)
  | .answered j r a => if j = i then some ⟨r, a⟩ else none
  | _ => none

theorem Event.exchangeOf?_eq_some {e : Event} {x : Exchange interface} :
    e.exchangeOf? i = some x ↔ e = .answered i x.request x.answer := by
  constructor
  · intro h
    cases e with
    | answered j r a =>
      by_cases hj : j = i
      · subst hj
        rw [exchangeOf?, if_pos rfl] at h
        cases h
        rfl
      · rw [exchangeOf?, if_neg hj] at h
        cases h
    | _ => cases h
  · rintro rfl
    exact if_pos rfl

theorem Event.exchangeOf?_eq_none {e : Event} (he : e.task? ≠ some i) : e.exchangeOf? i = none := by
  rw [Option.eq_none_iff_forall_ne_some]
  intro x hx
  rw [exchangeOf?_eq_some] at hx
  exact he (hx ▸ rfl)

/-- What task `i` has asked and been answered, the oldest first. -/
def answersOf (i : Nat) (t : Trace) : Transcript interface :=
  (t.filterMap (Event.exchangeOf? i)).reverse

@[simp] theorem answersOf_nil : answersOf i [] = [] := rfl

@[simp] theorem answersOf_answered (r : Request) (a : r.Answer) :
    answersOf i (.answered i r a :: t) = answersOf i t ++ [⟨r, a⟩] := by
  have he : (Event.answered i r a).exchangeOf? i = some ⟨r, a⟩ := Event.exchangeOf?_eq_some.2 rfl
  unfold answersOf
  rw [List.filterMap_cons_some he, List.reverse_cons]

theorem answersOf_append (later earlier : Trace) :
    answersOf i (later ++ earlier) = answersOf i earlier ++ answersOf i later := by
  unfold answersOf
  rw [List.filterMap_append, List.reverse_append]

theorem answersOf_others {between : Trace} (hothers : ∀ e ∈ between, e.task? ≠ some i) :
    answersOf i (between ++ t) = answersOf i t := by
  have hnone : between.filterMap (Event.exchangeOf? i) = [] :=
    List.filterMap_eq_nil_iff.2 fun e he => Event.exchangeOf?_eq_none (hothers e he)
  unfold answersOf
  rw [List.filterMap_append, hnone, List.nil_append]

theorem answersOf_elsewhere {j : Nat} (hj : j ≠ i) {r : Request} {a : r.Answer} :
    answersOf i (.answered j r a :: t) = answersOf i t := by
  have hothers : ∀ e ∈ [Event.answered j r a], e.task? ≠ some i := by
    intro e he
    rw [List.mem_singleton.1 he]
    exact fun htask => hj (Option.some.inj htask)
  exact answersOf_others hothers

theorem Apart.answersOf {σ τ : Shared} (h : Apart i σ τ) :
    answersOf i τ.trace = answersOf i σ.trace := by
  obtain ⟨between, htrace, hothers⟩ := h
  rw [htrace, answersOf_others hothers]

theorem mem_answersOf {r : Request} {a : r.Answer} :
    (⟨r, a⟩ : Exchange interface) ∈ answersOf i t ↔ Event.answered i r a ∈ t := by
  unfold answersOf
  simp only [List.mem_reverse, List.mem_filterMap, Event.exchangeOf?_eq_some]
  constructor
  · rintro ⟨e, he, rfl⟩
    exact he
  · intro he
    exact ⟨_, he, rfl⟩

theorem parted_of_answersOf {before after : Transcript interface} {x : Exchange interface}
    (h : answersOf i t = before ++ x :: after) :
    ∃ later earlier, t = later ++ .answered i x.request x.answer :: earlier ∧
      answersOf i later = after ∧ answersOf i earlier = before := by
  unfold answersOf at h ⊢
  have hparts : t.filterMap (Event.exchangeOf? i) = after.reverse ++ x :: before.reverse := by
    rw [← List.reverse_reverse (t.filterMap _), h]
    simp
  obtain ⟨later, rest, rfl, hlater, hrest⟩ := List.filterMap_eq_append_iff.1 hparts
  obtain ⟨others, e, earlier, rfl, hnone, he, hearlier⟩ := List.filterMap_eq_cons_iff.1 hrest
  obtain rfl := Event.exchangeOf?_eq_some.1 he
  refine ⟨later ++ others, earlier, by simp, ?_, ?_⟩
  · rw [List.filterMap_append, List.filterMap_eq_nil_iff.2 hnone, List.append_nil, hlater,
      List.reverse_reverse]
  · rw [hearlier, List.reverse_reverse]

section Steps

variable {σ τ : System} {r : Request} {a : r.Answer}

theorem System.Step.trace (hstep : System.Step s σ τ) :
    τ.shared.trace = σ.shared.trace ∨ ∃ e, τ.shared.trace = e :: σ.shared.trace := by
  cases hstep with
  | began job free => exact .inr ⟨_, rfl⟩
  | turn may task => exact .inl rfl
  | answered may task served => exact .inr ⟨_, congrArg _ served.trace⟩
  | finished may task => exact .inl rfl
  | crashed => exact .inr ⟨_, rfl⟩

theorem System.Step.suffix (hstep : System.Step s σ τ) : σ.shared.trace <:+ τ.shared.trace := by
  rcases hstep.trace with hsame | ⟨e, hcons⟩
  · exact ⟨[], hsame.symm⟩
  · exact ⟨[e], hcons.symm⟩

theorem System.suffix_of_leads (hleads : System.Leads s σ τ) : σ.shared.trace <:+ τ.shared.trace := by
  induction hleads with
  | refl => exact List.suffix_refl _
  | tail _ hstep ih => exact ih.trans hstep.suffix

theorem System.Step.served (hstep : System.Step s σ τ)
    (htrace : τ.shared.trace = .answered i r a :: σ.shared.trace) :
    ∃ υ, Served r a σ.shared υ ∧ τ.shared = υ.note (.answered i r a) := by
  cases hstep with
  | began job free => cases (List.cons.inj htrace).1
  | turn may task => exact absurd htrace.symm (List.cons_ne_self _ _)
  | @answered j r' next a' υ may task served =>
    rw [Shared.trace_note, served.trace] at htrace
    cases (List.cons.inj htrace).1
    exact ⟨υ, served, rfl⟩
  | finished may task => exact absurd htrace.symm (List.cons_ne_self _ _)
  | crashed => cases (List.cons.inj htrace).1

theorem System.Step.asked (hstep : System.Step s σ τ)
    (htrace : τ.shared.trace = .answered i r a :: σ.shared.trace) :
    ∃ next, σ.tasks[i]? = some (.running (.ask r next)) := by
  cases hstep with
  | began job free => cases (List.cons.inj htrace).1
  | turn may task => exact absurd htrace.symm (List.cons_ne_self _ _)
  | answered may task served =>
    rw [Shared.trace_note, served.trace] at htrace
    cases (List.cons.inj htrace).1
    exact ⟨_, task⟩
  | finished may task => exact absurd htrace.symm (List.cons_ne_self _ _)
  | crashed => cases (List.cons.inj htrace).1

/-- Whatever has happened, happened in a step of the run. -/
theorem exists_step_of_trace (hr : System.Reachable s τ) {later earlier : Trace} {e : Event}
    (htrace : τ.shared.trace = later ++ e :: earlier) :
    ∃ σ σ', System.Reachable s σ ∧ System.Step s σ σ' ∧ σ.shared.trace = earlier ∧
      σ'.shared.trace = e :: earlier ∧ System.Leads s σ' τ := by
  obtain ⟨store, hempty, hleads⟩ := hr
  induction hleads generalizing later with
  | refl => simp [System.start] at htrace
  | @tail ρ τ hleads hstep ih =>
    have hρ : System.Reachable s ρ := ⟨store, hempty, hleads⟩
    have before {later : Trace} (hearlier : ρ.shared.trace = later ++ e :: earlier) :
        ∃ σ σ', System.Reachable s σ ∧ System.Step s σ σ' ∧ σ.shared.trace = earlier ∧
          σ'.shared.trace = e :: earlier ∧ System.Leads s σ' τ := by
      obtain ⟨σ, σ', hσ, hstep', hσtrace, hσ'trace, hrest⟩ := ih hearlier
      exact ⟨σ, σ', hσ, hstep', hσtrace, hσ'trace, hrest.tail hstep⟩
    -- the event was there before the last step, unless it is the one that step has added
    rcases hstep.trace with hsame | ⟨e', hcons⟩
    · exact before (hsame ▸ htrace)
    · rw [hcons] at htrace
      cases later with
      | nil =>
        obtain ⟨rfl, hρtrace⟩ := List.cons.inj htrace
        exact ⟨ρ, τ, hρ, hstep, hρtrace, by rw [hcons, hρtrace], .refl⟩
      | cons _ later => exact before (List.cons.inj htrace).2

theorem exists_step_since (hleads : System.Leads s σ τ) {between : Trace} {e : Event}
    (htrace : τ.shared.trace = between ++ σ.shared.trace) (he : e ∈ between) :
    ∃ ρ ρ', System.Leads s σ ρ ∧ System.Step s ρ ρ' ∧ ρ'.shared.trace = e :: ρ.shared.trace := by
  induction hleads generalizing between with
  | refl =>
    rw [List.self_eq_append_left.1 htrace] at he
    cases he
  | @tail ρ τ hrun hstep ih =>
    rcases hstep.trace with hsame | ⟨e', hcons⟩
    · exact ih (hsame ▸ htrace) he
    · cases between with
      | nil => cases he
      | cons first between =>
        obtain ⟨rfl, hρ⟩ := List.cons.inj (hcons.symm.trans htrace)
        rcases List.mem_cons.1 he with rfl | he
        · exact ⟨ρ, τ, hrun, hstep, hcons⟩
        · exact ih hρ he

theorem exists_served_since (hleads : System.Leads s σ τ) {u : Transcript interface}
    (hanswers : answersOf i τ.shared.trace = answersOf i σ.shared.trace ++ u) {x : Exchange interface}
    (hx : x ∈ u) : ∃ ρ υ, System.Leads s σ ρ ∧ Served x.request x.answer ρ.shared υ := by
  obtain ⟨between, hbetween⟩ := System.suffix_of_leads hleads
  have hu : u = answersOf i between := by
    rw [← hbetween, answersOf_append] at hanswers
    exact (List.append_cancel_left hanswers).symm
  have hmem : Event.answered i x.request x.answer ∈ between := mem_answersOf.1 (hu ▸ hx)
  obtain ⟨ρ, ρ', hρ, hstep, hcons⟩ := exists_step_since hleads hbetween.symm hmem
  obtain ⟨υ, hserved, -⟩ := hstep.served hcons
  exact ⟨ρ, υ, hρ, hserved⟩

end Steps

section Keeping

def recalling (s : Settings) (P : Nat → Request → Trace → Prop) : Contract s where
  Inv _ := True
  Onward _ _ := True
  refl _ := trivial
  trans _ _ := trivial
  Allows i r σ := P i r σ.trace
  Ready _ _ := True
  ready_onward _ _ := trivial
  ready_spawned _ := trivial
  served _ _ _ := ⟨trivial, trivial⟩
  began _ := ⟨trivial, trivial⟩
  crashed _ := ⟨trivial, trivial⟩

theorem recalled_of_reachable {P : Nat → Request → Trace → Prop} (hkept : (recalling s P).Kept)
    {σ : System} (hr : System.Reachable s σ) {r : Request} {next : r.Answer → Activity (Option Routine)}
    (task : σ.tasks[i]? = some (.running (.ask r next))) : P i r σ.shared.trace := by
  obtain ⟨store, -, hleads⟩ := hr
  have hstart : (recalling s P).Holds (.start s store) := Contract.holds_start trivial
  have hholds : (recalling s P).Holds σ := (hstart.leads hkept hleads).1
  have hrest := (hholds.fine i _ task).1
  exact (hrest σ.shared (Contract.meanwhile_refl trivial)).1

variable {P : Request → Transcript interface → Prop}

/-- The contract of tasks each of which heeds its own transcript only. -/
abbrev heeding (s : Settings) (P : Request → Transcript interface → Prop) : Contract s :=
  recalling s fun i r t => P r (answersOf i t)

theorem upholds_heeding {α : Type} {p : Activity α} {Q : α → Transcript interface → Prop}
    {σ : Shared} (h : p.Upholds (watched P) Q (answersOf i σ.trace)) :
    p.Upholds ((heeding s P).around i) (fun a τ => Q a (answersOf i τ.trace)) σ := by
  induction p generalizing σ with
  | done a => exact h
  | ask r next ih =>
    obtain ⟨hallows, hnext⟩ := upholds_watched.1 h
    intro τ hτ
    have hsame : answersOf i τ.trace = answersOf i σ.trace := by
      dsimp only at hτ
      split at hτ
      · exact hτ.2.2.answersOf
      · rw [hτ]
    have hallowsτ : P r (answersOf i τ.trace) := hsame ▸ hallows
    refine ⟨hallowsτ, fun a υ hυ => ?_⟩
    obtain ⟨ω, hserved, rfl, -⟩ := hυ
    apply ih a
    rw [Shared.trace_note, answersOf_answered, hserved.trace, hsame]
    exact hnext a

/-- If every turn, begun with any transcript, asks by its transcript alone, every task always does. -/
theorem asked_of_reachable
    (hturn : ∀ (r : Routine) u, (r.turn s).Upholds (watched P) (fun _ _ => True) u)
    (hjob : ∀ (j : Job) u, (j.program s).Upholds (watched P) (fun _ _ => True) u)
    {σ : System} (hr : System.Reachable s σ) {r : Request}
    {next : r.Answer → Activity (Option Routine)}
    (task : σ.tasks[i]? = some (.running (.ask r next))) : P r (answersOf i σ.shared.trace) := by
  have hkept : (heeding s P).Kept := by
    constructor
    · intro i r σ _ _
      exact (upholds_heeding (hturn r _)).imp fun _ _ _ _ _ => trivial
    · intro i j σ _
      exact (upholds_heeding (hjob j _)).imp fun _ _ _ _ _ => trivial
  exact recalled_of_reachable hkept hr task

end Keeping

end CommitReveal.Agent
