import CommitReveal.Proofs.History
import CommitReveal.Proofs.Solo

/-! Sendings side by side. Any number of transactions may be on their way at once, each from the count of
transactions to the node's answer, and between any two requests of one the others may go on. Each keeps
its nonce from the moment it was given one; only a refused one gives it back. -/
namespace CommitReveal.Agent

open Program

structure Outbox where
  shared : Shared
  sendings : List (Activity (Except ChainError TxHash))

namespace Outbox

def start (s : Settings) (store : Store.Backend) : Outbox :=
  ⟨⟨store, .empty s.limits.queueCapacity, []⟩, []⟩

inductive Step (s : Settings) : Outbox → Outbox → Prop
  | began {σ : Outbox} (what : Chain.Submission) :
    Step s σ ⟨σ.shared, σ.sendings ++ [submit s what]⟩
  | answered {σ : Outbox} {i : Nat} {r : Request} {next : r.Answer → Activity (Except ChainError TxHash)}
    {a : r.Answer} {τ : Shared} (sending : σ.sendings[i]? = some (.ask r next))
    (served : Served r a σ.shared τ) :
    Step s σ ⟨τ.note (.answered i r a), σ.sendings.set i (next a)⟩

def Reachable (s : Settings) (σ : Outbox) : Prop :=
  ∃ store, Relation.ReflTransGen (Step s) (start s store) σ

end Outbox

variable {s : Settings} {i j : Nat} {n m : Word} {t : Trace} {u : Transcript interface}
  {c c' : NonceCache}

def Assignable (c : NonceCache) (n : Word) : Prop :=
  ∃ observed c', c.take observed = .ok (n, c')

section Discipline

inductive Counted : Option Word → Transcript interface → Prop
  | read {agent : Address} {count : Word} :
    Counted (some count) [⟨.chain (.transactionCount agent), .ok count⟩]
  | unread {agent : Address} {cause : ChainError} : Counted none
    [⟨.chain (.transactionCount agent), .error cause⟩, ⟨.notify (.nonceUnreadable cause), ()⟩]

inductive Given (n : Word) : Transcript interface → Prop
  | intro {observed : Option Word} {u : Transcript interface} (counted : Counted observed u) :
    Given n (u ++ [⟨.memory (.takeNonce observed), .ok n⟩])

inductive Refused (n : Word) : Transcript interface → Prop
  | intro {what : Chain.Submission} {cause : ChainError} {u : Transcript interface}
    (given : Given n u) : Refused n (u ++ [⟨.chain (.submit what n), .error cause⟩])

theorem Counted.observed_eq {observed : Option Word} {agent : Address} {count : Word}
    (h : Counted observed u) (hmem : ⟨.chain (.transactionCount agent), .ok count⟩ ∈ u) :
    observed = some count := by
  cases h with
  | @read agent' count' =>
    have heq : agent = agent' ∧ count = count' := by simpa using hmem
    rw [heq.2]
  | unread => simp at hmem

theorem Counted.read_mem {count : Word} (h : Counted (some count) u) :
    ∃ agent, ⟨.chain (.transactionCount agent), .ok count⟩ ∈ u := by
  cases h with
  | @read agent => exact ⟨agent, by simp⟩

theorem Refused.mem (h : Refused n u) : ∃ what cause, ⟨.chain (.submit what n), .error cause⟩ ∈ u := by
  cases h with
  | @intro what cause u given => exact ⟨what, cause, by simp⟩

def Asks : Request → Transcript interface → Prop
  | .chain (.transactionCount _), u => u = []
  | .memory (.takeNonce observed), u => Counted observed u
  | .chain (.submit _ n), u => Given n u
  | .memory (.releaseNonce n), u => Refused n u
  | .notify _, _ | .abort _, _ => True
  | _, _ => False

/-- A sending that has come to its end was accepted, or it has given back its nonce. -/
def Settled : Except ChainError TxHash → Transcript interface → Prop
  | .ok tx, u => ∃ n what u', Given n u' ∧ u = u' ++ [⟨.chain (.submit what n), .ok tx⟩]
  | .error _, u => ∃ n u', Refused n u' ∧ u = u' ++ [⟨.memory (.releaseNonce n), .ok ()⟩]

abbrev alongside : Surroundings interface :=
  watched Asks

theorem Asks.andThen {α : Type} {r : Request} {next : r.Answer → Activity α}
    {Q : α → Transcript interface → Prop} (hr : Asks r u)
    (hnext : ∀ a, (next a).Upholds alongside Q (u ++ [⟨r, a⟩])) :
    ((ask r).bind next).Upholds alongside Q u :=
  upholds_watched.2 ⟨hr, hnext⟩

theorem upholds_orElse {α : Type} {e : Except Fault α} {Q : α → Transcript interface → Prop}
    (hok : ∀ a, e = .ok a → Q a u) : (orAbort e).Upholds alongside Q u := by
  cases e with
  | ok a => exact hok a rfl
  | error f => exact upholds_watched.2 ⟨trivial, fun never => nomatch never⟩

theorem upholds_observedCount (s : Settings) :
    (observedCount s).Upholds alongside Counted [] := by
  unfold observedCount callChain
  refine Asks.andThen rfl fun answer => ?_
  cases answer with
  | ok count => exact .read
  | error cause =>
    apply Asks.andThen (r := .notify (.nonceUnreadable cause)) trivial
    intro _
    exact .unread

theorem upholds_takeNonce {observed : Option Word} (hcounted : Counted observed u) :
    (takeNonce observed).Upholds alongside Given u := by
  unfold takeNonce
  refine Asks.andThen (r := .memory (.takeNonce observed)) hcounted fun answer => ?_
  apply upholds_orElse
  rintro n rfl
  exact .intro hcounted

theorem upholds_releaseNonce (hrefused : Refused n u) :
    (releaseNonce n).Upholds alongside
      (fun _ v => v = u ++ [⟨.memory (.releaseNonce n), .ok ()⟩]) u := by
  unfold releaseNonce
  refine Asks.andThen (r := .memory (.releaseNonce n)) hrefused fun answer => ?_
  apply upholds_orElse
  rintro _ rfl
  rfl

theorem upholds_submit_alongside (s : Settings) (what : Chain.Submission) :
    (submit s what).Upholds alongside Settled [] := by
  unfold submit callChain
  refine (upholds_observedCount s).bind fun observed u hcounted => ?_
  refine (upholds_takeNonce hcounted).bind fun n u hgiven => ?_
  refine Asks.andThen (r := .chain (.submit what n)) hgiven fun answer => ?_
  cases answer with
  | ok tx => exact ⟨n, what, u, hgiven, rfl⟩
  | error cause =>
    have hrefused : Refused n (u ++ [⟨.chain (.submit what n), .error cause⟩]) := .intro hgiven
    exact (upholds_releaseNonce hrefused).bind fun _ v hv => ⟨n, _, hrefused, hv⟩

/-- Whether a transcript ends with a nonce in use. -/
def Keeps (n : Word) (u : Transcript interface) : Prop :=
  (∃ what tx, ⟨.chain (.submit what n), .ok tx⟩ ∈ u) ∨
    (∃ observed, ⟨.memory (.takeNonce observed), .ok n⟩ ∈ u) ∧
      ⟨.memory (.releaseNonce n), .ok ()⟩ ∉ u

end Discipline

section Nonces

/-- Sending `i` was accepted under a nonce, or has been given it and has not given it back. -/
def Outstanding (i : Nat) (n : Word) (t : Trace) : Prop :=
  (∃ what tx, Event.answered i (.chain (.submit what n)) (.ok tx) ∈ t) ∨
    (∃ observed, Event.answered i (.memory (.takeNonce observed)) (.ok n) ∈ t) ∧
      Event.answered i (.memory (.releaseNonce n)) (.ok ()) ∉ t

theorem outstanding_iff : Outstanding i n t ↔ Keeps n (answersOf i t) := by
  simp only [Outstanding, Keeps, mem_answersOf]

theorem Counted.keeps {observed : Option Word} (h : Counted observed u) : ¬Keeps m u := by
  cases h <;> simp [Keeps]

theorem Given.keeps (h : Given n u) : Keeps m u ↔ m = n := by
  obtain ⟨hcounted⟩ := h
  cases hcounted <;> simp [Keeps]

theorem Refused.keeps (h : Refused n u) : Keeps m u ↔ m = n := by
  obtain ⟨⟨hcounted⟩⟩ := h
  cases hcounted <;> simp [Keeps]

theorem Given.keeps_accepted (h : Given n u) {what : Chain.Submission} {tx : TxHash} :
    Keeps m (u ++ [⟨.chain (.submit what n), .ok tx⟩]) ↔ m = n := by
  obtain ⟨hcounted⟩ := h
  cases hcounted <;> simp [Keeps]

theorem Refused.keeps_returned (h : Refused n u) :
    ¬Keeps m (u ++ [⟨.memory (.releaseNonce n), .ok ()⟩]) := by
  obtain ⟨⟨hcounted⟩⟩ := h
  cases hcounted <;> simp +contextual [Keeps]

def Event.bearsNonce : Event → Bool
  | .answered _ (.memory (.takeNonce _)) (.ok _) => true
  | .answered _ (.memory (.releaseNonce _)) (.ok _) => true
  | .answered _ (.chain (.submit _ _)) (.ok _) => true
  | _ => false

/-- All that one answer to a sending can do to the nonces. -/
inductive Effect (c : NonceCache) (t : Trace) : Event → NonceCache → Prop
  | given {i : Nat} {observed : Option Word} {n : Word} {c' : NonceCache}
    (counted : Counted observed (answersOf i t)) (take : c.take observed = .ok (n, c')) :
    Effect c t (.answered i (.memory (.takeNonce observed)) (.ok n)) c'
  | accepted {i : Nat} {what : Chain.Submission} {n : Word} {tx : TxHash}
    (given : Given n (answersOf i t)) :
    Effect c t (.answered i (.chain (.submit what n)) (.ok tx)) c
  | returned {i : Nat} {n : Word} {c' : NonceCache} (refused : Refused n (answersOf i t))
    (release : c.release n = .ok c') :
    Effect c t (.answered i (.memory (.releaseNonce n)) (.ok ())) c'
  | nothing {e : Event} (plain : e.bearsNonce = false) : Effect c t e c

theorem Effect.of_given {i : Nat} {observed : Option Word}
    (h : Effect c t (.answered i (.memory (.takeNonce observed)) (.ok n)) c') :
    Counted observed (answersOf i t) ∧ c.take observed = .ok (n, c') := by
  cases h with
  | given counted take => exact ⟨counted, take⟩
  | nothing plain => cases plain

theorem Effect.of_returned {i : Nat}
    (h : Effect c t (.answered i (.memory (.releaseNonce n)) (.ok ())) c') :
    Refused n (answersOf i t) ∧ c.release n = .ok c' := by
  cases h with
  | returned refused release => exact ⟨refused, release⟩
  | nothing plain => cases plain

theorem effect_of_served {r : Request} {a : r.Answer} {σ τ : Shared}
    (hasks : Asks r (answersOf i σ.trace)) (hserved : Served r a σ τ) :
    Effect σ.memory.nonces σ.trace (.answered i r a) τ.memory.nonces ∧
      τ = { σ with memory := { σ.memory with nonces := τ.memory.nonces } } := by
  cases r with
  | chain call =>
    obtain rfl : τ = σ := hserved
    refine ⟨?_, rfl⟩
    cases call with
    | submit what n =>
      cases a with
      | ok tx => exact .accepted hasks
      | error cause => exact .nothing rfl
    | _ => exact .nothing rfl
  | memory request =>
    obtain ⟨rfl, rfl⟩ := hserved
    cases request with
    | takeNonce observed =>
      unfold Memory.perform
      dsimp only
      split
      · rename_i n nonces htake
        exact ⟨.given hasks htake, rfl⟩
      · exact ⟨.nothing rfl, rfl⟩
    | releaseNonce n =>
      unfold Memory.perform
      dsimp only
      split
      · rename_i nonces hrelease
        exact ⟨.returned hasks hrelease, rfl⟩
      · exact ⟨.nothing rfl, rfl⟩
    | _ => exact hasks.elim
  | notify notice =>
    obtain rfl : τ = σ := hserved
    exact ⟨.nothing rfl, rfl⟩
  | abort f => exact nomatch a
  | _ => exact hasks.elim

variable {e : Event} {observed : Option Word} {what : Chain.Submission} {tx : TxHash}

theorem outstanding_other (hj : j ≠ i) {r : Request} {a : r.Answer} :
    Outstanding j m (.answered i r a :: t) ↔ Outstanding j m t := by
  rw [outstanding_iff, outstanding_iff, answersOf_elsewhere (Ne.symm hj)]

theorem outstanding_given (hcounted : Counted observed (answersOf i t)) :
    Outstanding j m (.answered i (.memory (.takeNonce observed)) (.ok n) :: t) ↔
      Outstanding j m t ∨ (j = i ∧ m = n) := by
  by_cases hj : j = i
  · subst hj
    have hbefore : ¬Outstanding j m t := fun h => hcounted.keeps (outstanding_iff.1 h)
    have hgiven : Given n (answersOf j t ++ [⟨.memory (.takeNonce observed), .ok n⟩]) := .intro hcounted
    rw [outstanding_iff, answersOf_answered, hgiven.keeps]
    simp [hbefore]
  · rw [outstanding_other hj]
    simp [hj]

theorem outstanding_accepted (hgiven : Given n (answersOf i t)) :
    Outstanding j m (.answered i (.chain (.submit what n)) (.ok tx) :: t) ↔ Outstanding j m t := by
  by_cases hj : j = i
  · subst hj
    rw [outstanding_iff, outstanding_iff, answersOf_answered, hgiven.keeps_accepted, hgiven.keeps]
  · exact outstanding_other hj

theorem outstanding_returned (hrefused : Refused n (answersOf i t)) :
    Outstanding j m (.answered i (.memory (.releaseNonce n)) (.ok ()) :: t) ↔
      Outstanding j m t ∧ ¬(j = i ∧ m = n) := by
  by_cases hj : j = i
  · subst hj
    rw [outstanding_iff, outstanding_iff, answersOf_answered, hrefused.keeps]
    simp [hrefused.keeps_returned]
  · rw [outstanding_other hj]
    simp [hj]

theorem outstanding_plain (hplain : e.bearsNonce = false) :
    Outstanding j m (e :: t) ↔ Outstanding j m t := by
  have hmem (e' : Event) (hbears : e'.bearsNonce = true) : e' ∈ e :: t ↔ e' ∈ t := by
    rw [List.mem_cons, or_iff_right]
    rintro rfl
    rw [hplain] at hbears
    cases hbears
  have haccepted (what : Chain.Submission) (tx : TxHash) :=
    hmem (.answered j (.chain (.submit what m)) (.ok tx)) rfl
  have hgiven (observed : Option Word) := hmem (.answered j (.memory (.takeNonce observed)) (.ok m)) rfl
  have hreturned := hmem (.answered j (.memory (.releaseNonce m)) (.ok ())) rfl
  simp only [Outstanding, haccepted, hgiven, hreturned]

/-- Every nonce in use is below the next one, and in use once. -/
structure Sound (c : NonceCache) (t : Trace) : Prop where
  below {i : Nat} {n : Word} : Outstanding i n t → n < c.next
  distinct {i j : Nat} {n : Word} : Outstanding i n t → Outstanding j n t → i = j

theorem Refused.outstanding (hrefused : Refused n (answersOf i t)) : Outstanding i n t :=
  outstanding_iff.2 (hrefused.keeps.2 rfl)

/-- A nonce is given out above all that are in use. -/
theorem Sound.lt_given (h : Sound c t) (htake : c.take observed = .ok (n, c'))
    (hm : Outstanding j m t) : m < n := by
  have hnext : c.next ≤ n := (assignNonce_eq_ok (NonceCache.take_eq_ok htake)).1
  exact UInt64.lt_of_lt_of_le (h.below hm) hnext

theorem Sound.fewer {t' : Trace} (h : Sound c t)
    (hfewer : ∀ {j : Nat} {m : Word}, Outstanding j m t' → Outstanding j m t)
    (hbelow : ∀ {j : Nat} {m : Word}, Outstanding j m t' → m < c'.next) : Sound c' t' :=
  ⟨hbelow, fun hj hk => h.distinct (hfewer hj) (hfewer hk)⟩

theorem Sound.given (h : Sound c t) (hcounted : Counted observed (answersOf i t))
    (htake : c.take observed = .ok (n, c')) :
    Sound c' (.answered i (.memory (.takeNonce observed)) (.ok n) :: t) := by
  have hnext : c'.next.toNat = n.toNat + 1 :=
    (assignNonce_eq_ok (NonceCache.take_eq_ok htake)).2.2.2
  have hfresh {j : Nat} : ¬Outstanding j n t := fun hn => UInt64.lt_irrefl n (h.lt_given htake hn)
  constructor
  · intro j m hm
    rw [UInt64.lt_iff_toNat_lt, hnext]
    rcases (outstanding_given hcounted).1 hm with hm | ⟨-, rfl⟩
    · have hlt : m.toNat < n.toNat := h.lt_given htake hm
      omega
    · omega
  · intro j k m hj hk
    rw [outstanding_given hcounted] at hj hk
    rcases hj with hj | ⟨rfl, rfl⟩
    · rcases hk with hk | ⟨-, rfl⟩
      · exact h.distinct hj hk
      · exact (hfresh hj).elim
    · rcases hk with hk | ⟨rfl, -⟩
      · exact (hfresh hk).elim
      · rfl

theorem Sound.returned (h : Sound c t) (hrefused : Refused n (answersOf i t))
    (hrelease : c.release n = .ok c') :
    Sound c' (.answered i (.memory (.releaseNonce n)) (.ok ()) :: t) := by
  apply h.fewer
  · intro j m hm
    exact ((outstanding_returned hrefused).1 hm).1
  · intro j m hafter
    obtain ⟨hm, hother⟩ := (outstanding_returned hrefused).1 hafter
    rcases NonceCache.release_eq_ok hrelease with ⟨hlatest, hback⟩ | ⟨-, rfl⟩
    -- rewound by one, the cache is above all but the nonce given back, which no other sending has
    · have hlt : m.toNat < c.next.toNat := h.below hm
      have hne : m.toNat ≠ n.toNat := by
        intro heq
        obtain rfl := UInt64.toNat_inj.1 heq
        exact hother ⟨h.distinct hm hrefused.outstanding, rfl⟩
      rw [UInt64.lt_iff_toNat_lt, hback]
      omega
    · exact h.below hm

theorem Sound.effect (h : Sound c t) (heffect : Effect c t e c') : Sound c' (e :: t) := by
  cases heffect with
  | given counted take => exact h.given counted take
  | accepted given =>
    exact h.fewer (outstanding_accepted given).1 fun hm => h.below ((outstanding_accepted given).1 hm)
  | returned refused release => exact h.returned refused release
  | nothing plain =>
    exact h.fewer (outstanding_plain plain).1 fun hm => h.below ((outstanding_plain plain).1 hm)

end Nonces

namespace Outbox

variable {σ τ : Outbox}

/-- Every sending is where its transcript has brought it, and the nonces are sound. -/
structure Tended (σ : Outbox) : Prop where
  kept {i : Nat} {p : Activity (Except ChainError TxHash)} :
    σ.sendings[i]? = some p → p.Upholds alongside Settled (answersOf i σ.shared.trace)
  unborn {i : Nat} : σ.sendings.length ≤ i → answersOf i σ.shared.trace = []
  sound : Sound σ.shared.memory.nonces σ.shared.trace

theorem tended_start (s : Settings) (store : Store.Backend) : Tended (start s store) where
  kept h := nomatch h
  unborn _ := rfl
  sound := by constructor <;> simp [start, Outstanding]

/-- A step starts a sending, or it answers one; then it does to the nonces what that answer can do, and
nothing else to what is shared. -/
theorem Tended.cases (h : Tended σ) (hstep : Step s σ τ) :
    τ.shared = σ.shared ∨ ∃ e, τ.shared.trace = e :: σ.shared.trace ∧
      Effect σ.shared.memory.nonces σ.shared.trace e τ.shared.memory.nonces ∧
      τ.shared.memory = { σ.shared.memory with nonces := τ.shared.memory.nonces } := by
  cases hstep with
  | began what => exact .inl rfl
  | @answered i r next a υ sending served =>
    have hasks : Asks r (answersOf i σ.shared.trace) := (upholds_watched.1 (h.kept sending)).1
    obtain ⟨heffect, hframe⟩ := effect_of_served hasks served
    exact .inr ⟨_, congrArg _ served.trace, heffect, congrArg Shared.memory hframe⟩

theorem Tended.kept_step (h : Tended σ) (hstep : Step s σ τ) {k : Nat}
    {p : Activity (Except ChainError TxHash)} (hp : τ.sendings[k]? = some p) :
    p.Upholds alongside Settled (answersOf k τ.shared.trace) := by
  cases hstep with
  | began what =>
    by_cases hold : k < σ.sendings.length
    · rw [List.getElem?_append_left hold] at hp
      exact h.kept hp
    · rw [List.getElem?_append_right (by omega), List.getElem?_singleton] at hp
      split at hp
      -- the new sending has been told nothing under its number
      · obtain rfl := Option.some.inj hp
        rw [h.unborn (by omega)]
        exact upholds_submit_alongside s what
      · cases hp
  | @answered i r next a υ sending served =>
    rw [Shared.trace_note, served.trace]
    by_cases hk : k = i
    · subst hk
      rw [List.getElem?_set_self (List.getElem?_eq_some_iff.1 sending).1] at hp
      obtain rfl := Option.some.inj hp
      rw [answersOf_answered]
      exact (upholds_watched.1 (h.kept sending)).2 a
    · rw [List.getElem?_set_ne (Ne.symm hk)] at hp
      rw [answersOf_elsewhere (Ne.symm hk)]
      exact h.kept hp

theorem Tended.unborn_step (h : Tended σ) (hstep : Step s σ τ) {k : Nat}
    (hk : τ.sendings.length ≤ k) : answersOf k τ.shared.trace = [] := by
  cases hstep with
  | began what =>
    rw [List.length_append] at hk
    exact h.unborn (by omega)
  | @answered i r next a υ sending served =>
    have hi : i < σ.sendings.length := (List.getElem?_eq_some_iff.1 sending).1
    rw [List.length_set] at hk
    rw [Shared.trace_note, served.trace, answersOf_elsewhere (by omega)]
    exact h.unborn hk

theorem Tended.step (h : Tended σ) (hstep : Step s σ τ) : Tended τ where
  kept := h.kept_step hstep
  unborn := h.unborn_step hstep
  sound := by
    rcases h.cases hstep with hsame | ⟨e, htrace, heffect, -⟩
    · rw [hsame]
      exact h.sound
    · rw [htrace]
      exact h.sound.effect heffect

theorem tended_of_reachable (hr : Reachable s σ) : Tended σ := by
  obtain ⟨store, hleads⟩ := hr
  induction hleads with
  | refl => exact tended_start s store
  | tail _ hstep ih => exact ih.step hstep

theorem Tended.effect (h : Tended σ) (hstep : Step s σ τ) {e : Event}
    (htrace : τ.shared.trace = e :: σ.shared.trace) :
    Effect σ.shared.memory.nonces σ.shared.trace e τ.shared.memory.nonces ∧
      τ.shared.memory = { σ.shared.memory with nonces := τ.shared.memory.nonces } := by
  rcases h.cases hstep with hsame | ⟨e', he', heffect⟩
  · rw [hsame] at htrace
    exact absurd htrace.symm (List.cons_ne_self _ _)
  · obtain rfl := (List.cons.inj (he'.symm.trans htrace)).1
    exact heffect

end Outbox

theorem Assignable.next_le (h : Assignable c n) : c.next ≤ n := by
  obtain ⟨observed, c', htake⟩ := h
  exact (assignNonce_eq_ok (NonceCache.take_eq_ok htake)).1

theorem Sound.release_cases (h : Sound c t) (hn : Outstanding i n t)
    (hrelease : c.release n = .ok c') :
    (Assignable c' n ∧ ∀ j m, Outstanding j m t → m ≤ n) ∨ (¬Assignable c' n ∧ c' = c) := by
  rcases NonceCache.release_eq_ok hrelease with ⟨hlatest, hback⟩ | ⟨-, rfl⟩
  · have hfits : c'.next.toNat + 1 < UInt64.size := by
      rw [hback, ← hlatest]
      exact c.next.toNat_lt
    obtain ⟨c'', htake⟩ := NonceCache.take_none hfits
    refine .inl ⟨⟨none, c'', hback ▸ htake⟩, fun j m hm => ?_⟩
    have hlt : m.toNat < c.next.toNat := h.below hm
    rw [UInt64.le_iff_toNat_le]
    omega
  · refine .inr ⟨fun hassignable => ?_, rfl⟩
    exact UInt64.not_le.2 (h.below hn) hassignable.next_le

namespace Outbox

inductive Move where
  | send (what : Chain.Submission)
  | answer (i : Nat) (rule : Answering)

def moved (s : Settings) (σ : Outbox) : Move → Outbox
  | .send what => ⟨σ.shared, σ.sendings ++ [submit s what]⟩
  | .answer i rule =>
    match σ.sendings[i]? with
    | some (.ask r next) =>
      match rule r σ.shared with
      | some (a, τ) => ⟨τ.note (.answered i r a), σ.sendings.set i (next a)⟩
      | none => σ
    | _ => σ

def Move.Fair (s : Settings) : Move → Prop
  | .send _ => True
  | .answer _ rule => rule.Fair (s := s)

theorem step_moved (σ : Outbox) {move : Move} (hfair : move.Fair s) :
    moved s σ move = σ ∨ Step s σ (moved s σ move) := by
  cases move with
  | send what => exact .inr (.began what)
  | answer i rule =>
    unfold moved
    dsimp only
    split
    · rename_i r next hsending
      split
      · rename_i a τ hanswer
        exact .inr (.answered hsending (hfair.served hanswer))
      · exact .inl rfl
    · exact .inl rfl

theorem step_of_moved (move : Move) (hfair : move.Fair s) {e : Event}
    (htrace : (moved s σ move).shared.trace = e :: σ.shared.trace) : Step s σ (moved s σ move) := by
  rcases step_moved σ hfair with hsame | hstep
  · rw [hsame] at htrace
    exact absurd htrace.symm (List.cons_ne_self _ _)
  · exact hstep

theorem Reachable.step (hr : Reachable s σ) (hstep : Step s σ τ) : Reachable s τ := by
  obtain ⟨store, hleads⟩ := hr
  exact ⟨store, hleads.tail hstep⟩

theorem Reachable.moves {moves : List Move} (hr : Reachable s σ)
    (hfair : ∀ move ∈ moves, move.Fair s) : Reachable s (moves.foldl (moved s) σ) := by
  induction moves generalizing σ with
  | nil => exact hr
  | cons move rest ih =>
    have hrest : ∀ m ∈ rest, m.Fair s := fun m hm => hfair m (List.mem_cons_of_mem move hm)
    rcases step_moved σ (hfair move List.mem_cons_self) with hsame | hstep
    · rw [List.foldl_cons, hsame]
      exact ih hr hrest
    · exact ih (hr.step hstep) hrest

/-- Nonces that were accepted or are held belong to one sending each, and one that is given out is above
all of them. -/
theorem outstanding_distinct {σ : Outbox} (hr : Reachable s σ) :
    (∀ i j n, Outstanding i n σ.shared.trace → Outstanding j n σ.shared.trace → i = j) ∧
    (∀ τ i observed n, Step s σ τ → τ.shared.trace =
        .answered i (.memory (.takeNonce observed)) (.ok n) :: σ.shared.trace →
      (∀ agent count, Event.answered i (.chain (.transactionCount agent)) (.ok count) ∈ σ.shared.trace →
        count ≤ n) ∧
      ∀ j m, Outstanding j m σ.shared.trace → m < n) ∧
    ∀ τ i n, Step s σ τ → τ.shared.trace =
        .answered i (.memory (.releaseNonce n)) (.ok ()) :: σ.shared.trace →
      (∃ what cause, Event.answered i (.chain (.submit what n)) (.error cause) ∈ σ.shared.trace) ∧
      (Assignable τ.shared.memory.nonces n → ∀ j m, Outstanding j m σ.shared.trace → m ≤ n) ∧
      (¬Assignable τ.shared.memory.nonces n → τ.shared.memory = σ.shared.memory) := by
  have h : Tended σ := tended_of_reachable hr
  refine ⟨fun i j n => h.sound.distinct, fun τ i observed n hstep htrace => ?_,
    fun τ i n hstep htrace => ?_⟩
  · obtain ⟨hcounted, htake⟩ := (h.effect hstep htrace).1.of_given
    obtain ⟨-, hcount, -⟩ := assignNonce_eq_ok (NonceCache.take_eq_ok htake)
    refine ⟨fun agent count hread => ?_, fun j m hm => h.sound.lt_given htake hm⟩
    exact hcount count (hcounted.observed_eq (mem_answersOf.2 hread))
  · obtain ⟨heffect, hframe⟩ := h.effect hstep htrace
    obtain ⟨hrefused, hrelease⟩ := heffect.of_returned
    obtain ⟨what, cause, hmem⟩ := hrefused.mem
    refine ⟨⟨what, cause, mem_answersOf.1 hmem⟩, ?_⟩
    rcases h.sound.release_cases hrefused.outstanding hrelease with ⟨hyes, hall⟩ | ⟨hno, hsame⟩
    · exact ⟨fun _ => hall, fun hno => absurd hyes hno⟩
    · refine ⟨fun hyes => absurd hyes hno, fun _ => ?_⟩
      rw [hframe, hsame]

def node (count : Except ChainError Word) (sent : Except ChainError TxHash) : Answering
  | .memory r, σ =>
    some ((Memory.perform r σ.memory).1, { σ with memory := (Memory.perform r σ.memory).2 })
  | .notify _, σ => some ((), σ)
  | .chain (.transactionCount _), σ => some (count, σ)
  | .chain (.submit _ _), σ => some (sent, σ)
  | _, _ => none

theorem node_fair (count : Except ChainError Word) (sent : Except ChainError TxHash) :
    (node count sent).Fair (s := s) where
  served {r a σ τ} hanswer := by
    rcases r with _ | (_ | _) | _ | _ | _ | _ | _ | _ | _ | _ | _ | _ | _ | _ | _ | _ | _ <;> cases hanswer
    all_goals first | rfl | exact ⟨rfl, rfl⟩
  alone {r a σ τ} hanswer := by
    cases r with
    | spawn routine => cases hanswer
    | _ => rfl

def refusing : Answering :=
  node (.ok 4) (.error (.rpc ""))

/-- Two sendings read the same count. The first is refused, and gives its nonce back when the second has
got the next one. -/
def twoSendings : List Move :=
  [.send (.commit (.fill 32 3)), .send (.reveal (.fill 32 2) (.zero 32)), .answer 0 refusing,
    .answer 1 refusing, .answer 0 refusing, .answer 1 refusing, .answer 0 refusing, .answer 0 refusing]

def afterMoves (moves : List Move) : Outbox :=
  moves.foldl (moved usual) (start usual (.memory .empty))

theorem outstanding_distinct_twoSendings :
    ∃ σ τ σ' τ' : Outbox, Reachable usual σ ∧ Step usual σ τ ∧ τ.shared.trace =
        .answered 1 (.memory (.takeNonce (some 4))) (.ok 5) :: σ.shared.trace ∧
      Outstanding 0 4 σ.shared.trace ∧ (∀ j m, Outstanding j m σ.shared.trace → m < 5) ∧
      Reachable usual σ' ∧ Step usual σ' τ' ∧ τ'.shared.trace =
        .answered 0 (.memory (.releaseNonce 4)) (.ok ()) :: σ'.shared.trace ∧
      Outstanding 1 5 σ'.shared.trace ∧ τ'.shared.memory = σ'.shared.memory := by
  have hfair : ∀ move ∈ twoSendings, move.Fair usual := by
    simp [twoSendings, Move.Fair, refusing, node_fair]
  have hr (n : Nat) : Reachable usual (afterMoves (twoSendings.take n)) :=
    Reachable.moves ⟨_, .refl⟩ fun move hmove => hfair move (List.mem_of_mem_take hmove)
  have hgiven : (afterMoves (twoSendings.take 6)).shared.trace = .answered 1
      (.memory (.takeNonce (some 4))) (.ok 5) :: (afterMoves (twoSendings.take 5)).shared.trace := rfl
  have hreturned : (afterMoves (twoSendings.take 8)).shared.trace = .answered 0
      (.memory (.releaseNonce 4)) (.ok ()) :: (afterMoves (twoSendings.take 7)).shared.trace := rfl
  have hgive : Step usual (afterMoves (twoSendings.take 5)) (afterMoves (twoSendings.take 6)) :=
    step_of_moved (.answer 1 refusing) (node_fair _ _) hgiven
  have hreturn : Step usual (afterMoves (twoSendings.take 7)) (afterMoves (twoSendings.take 8)) :=
    step_of_moved (.answer 0 refusing) (node_fair _ _) hreturned
  have hcounts : (afterMoves (twoSendings.take 4)).shared.trace =
    [.answered 1 (.chain (.transactionCount usual.agent)) (.ok 4),
      .answered 0 (.chain (.transactionCount usual.agent)) (.ok 4)] := rfl
  have htaken : (afterMoves (twoSendings.take 5)).shared.trace =
    .answered 0 (.memory (.takeNonce (some 4))) (.ok 4) ::
      (afterMoves (twoSendings.take 4)).shared.trace := rfl
  have hrefused : (afterMoves (twoSendings.take 7)).shared.trace =
    .answered 0 (.chain (.submit (.commit (.fill 32 3)) 4)) (.error (.rpc "")) ::
      (afterMoves (twoSendings.take 6)).shared.trace := rfl
  have hfirst : Outstanding 0 4 (afterMoves (twoSendings.take 5)).shared.trace := by
    simp [Outstanding, htaken, hcounts]
  have hsecond : Outstanding 1 5 (afterMoves (twoSendings.take 7)).shared.trace := by
    simp [Outstanding, hrefused, hgiven, htaken, hcounts]
  obtain ⟨-, hagain, hunchanged⟩ := (outstanding_distinct (hr 7)).2.2 _ _ _ hreturn hreturned
  have hlost : ¬Assignable (afterMoves (twoSendings.take 8)).shared.memory.nonces 4 :=
    fun hassignable => absurd (hagain hassignable 1 5 hsecond) (by decide)
  obtain ⟨-, habove⟩ := (outstanding_distinct (hr 5)).2.1 _ _ _ _ hgive hgiven
  exact ⟨_, _, _, _, hr 5, hgive, hgiven, hfirst, habove, hr 7, hreturn, hreturned, hsecond,
    hunchanged hlost⟩

end Outbox

end CommitReveal.Agent
