import CommitReveal.Proofs.Announcement
import CommitReveal.Proofs.PendingReveals

/-! What was once put into the store, or found there, stays until it is written anew, whoever writes it and
however often the agent crashes. -/
namespace CommitReveal.Agent

open Repository (peek key key_ne Seeded)

variable {s : Settings} {σ τ : System} {i : Nat} {r : Request} {a : r.Answer} {k v : Bytes} {h : Hash}

/-- Some task has asked for this value to be put under a key, whatever the answer. -/
def Written (k v : Bytes) (t : Trace) : Prop :=
  ∃ j answer, Event.answered j (.store (.call (.set k v))) answer ∈ t

theorem Written.mono {t t' : Trace} (hw : Written k v t) (ht : t ⊆ t') : Written k v t' := by
  obtain ⟨j, answer, hmem⟩ := hw
  exact ⟨j, answer, ht hmem⟩

/-- An answer that leaves no doubt of what is stored under a key. -/
def Shows (k v : Bytes) : (r : Request) → r.Answer → Prop
  | .store (.call (.set k' v')), .ok _ => k' = k ∧ v' = v
  | .store (.call (.get k')), .ok (some v') => k' = k ∧ v' = v
  | _, _ => False

theorem get?_of_shows {σ τ : Shared} (hserved : Served r a σ τ) (hshows : Shows k v r a) :
    τ.store.get? k = some v := by
  unfold Shows at hshows
  split at hshows
  · obtain ⟨rfl, rfl⟩ := hshows
    rcases hserved with ⟨_, heq, _⟩ | ⟨-, rfl⟩
    · cases heq
    · rw [Store.Backend.get?_set, if_pos rfl]
  · obtain ⟨rfl, rfl⟩ := hshows
    rcases hserved with ⟨_, heq, _⟩ | ⟨heq | ⟨_, heq⟩, rfl⟩
    · cases heq
    · rw [Store.Backend.perform_get] at heq ⊢
      exact (Except.ok.inj heq).symm
    · cases heq
  · exact hshows.elim

/-- Served within the conduct, a request leaves a value as it is or writes it anew: only the marks of
pending hashes are ever deleted. -/
theorem get?_served {σ τ : Shared} (hallows : Allows s r σ) (hserved : Served r a σ τ)
    (hk : ∀ h, k ≠ key .pending h) : τ.store.get? k = σ.store.get? k ∨
      ∃ v, r = .store (.call (.set k v)) ∧ τ.store.get? k = some v := by
  rcases hserved.store with hsame | ⟨c, rfl, hstore⟩
  · exact .inl (by rw [hsame])
  · rw [hstore]
    cases c with
    | get k' =>
      rw [Store.Backend.perform_get]
      exact .inl rfl
    | scan start =>
      rw [Store.Backend.perform_scan]
      exact .inl rfl
    | set k' v =>
      rw [Store.Backend.get?_set]
      by_cases heq : k = k'
      · rw [if_pos heq, heq]
        exact .inr ⟨v, rfl, rfl⟩
      · rw [if_neg heq]
        exact .inl rfl
    | delete k' =>
      obtain ⟨h, rfl, -⟩ := hallows
      rw [Store.Backend.get?_delete, if_neg (hk h)]
      exact .inl rfl

def KeptOrWritten (k v : Bytes) (between : Trace) (b : Store.Backend) : Prop :=
  b.get? k = some v ∨ ∃ v', Written k v' between ∧ b.get? k = some v'

theorem KeptOrWritten.exists_get? {between : Trace} {b : Store.Backend} (h : KeptOrWritten k v between b) :
    ∃ v', b.get? k = some v' := by
  rcases h with hget | ⟨v', -, hget⟩
  · exact ⟨v, hget⟩
  · exact ⟨v', hget⟩

theorem KeptOrWritten.step (hr : System.Reachable s σ) (hstep : System.Step s σ τ)
    (hk : ∀ h, k ≠ key .pending h) {between : Trace}
    (h : KeptOrWritten k v between σ.shared.store) :
    ∃ e, τ.shared.trace = e ++ σ.shared.trace ∧ KeptOrWritten k v (e ++ between) τ.shared.store := by
  have same {e : Trace} (htrace : τ.shared.trace = e ++ σ.shared.trace)
      (hget : τ.shared.store.get? k = σ.shared.store.get? k) :
      ∃ e, τ.shared.trace = e ++ σ.shared.trace ∧ KeptOrWritten k v (e ++ between) τ.shared.store := by
    refine ⟨e, htrace, ?_⟩
    unfold KeptOrWritten
    rw [hget]
    exact h.imp id fun ⟨v', hw, hv'⟩ => ⟨v', hw.mono (List.subset_append_right _ _), hv'⟩
  cases hstep with
  | began job free => exact same (e := [_]) rfl rfl
  | turn may task => exact same (e := []) rfl rfl
  | @answered i r next a υ may task served =>
    have htrace : (υ.note (.answered i r a)).trace = [.answered i r a] ++ σ.shared.trace := congrArg _ served.trace
    rcases get?_served (allows_of_reachable hr task) served hk with hget | ⟨v', rfl, hget⟩
    · exact same htrace hget
    · exact ⟨_, htrace, .inr ⟨v', ⟨i, a, .head _⟩, hget⟩⟩
  | finished may task => exact same (e := []) rfl rfl
  | crashed => exact same (e := [_]) rfl rfl

theorem kept_or_written (hr : System.Reachable s σ) (hleads : System.Leads s σ τ)
    (hk : ∀ h, k ≠ key .pending h) (hget : σ.shared.store.get? k = some v) :
    ∃ between, τ.shared.trace = between ++ σ.shared.trace ∧ KeptOrWritten k v between τ.shared.store := by
  induction hleads with
  | refl => exact ⟨[], rfl, .inl hget⟩
  | @tail ρ τ hleads hstep ih =>
    obtain ⟨between, htrace, hkept⟩ := ih
    obtain ⟨e, hcons, hkept⟩ := hkept.step (hr.leads hleads) hstep hk
    exact ⟨e ++ between, by rw [hcons, htrace, List.append_assoc], hkept⟩

/-- What an answer has shown to be stored is stored still, or was written anew since. -/
theorem kept_since (hr : System.Reachable s τ) {later earlier : Trace}
    (htrace : τ.shared.trace = later ++ .answered i r a :: earlier) (hshows : Shows k v r a)
    (hk : ∀ h, k ≠ key .pending h) : KeptOrWritten k v later τ.shared.store := by
  obtain ⟨σ, σ', hσ, hstep, hbefore, hafter, hleads⟩ := exists_step_of_trace hr htrace
  rw [← hbefore] at hafter
  obtain ⟨υ, hserved, hυ⟩ := hstep.served hafter
  have hstored : υ.store.get? k = some v := get?_of_shows hserved hshows
  have hget : σ'.shared.store.get? k = some v := by
    rw [hυ]
    exact hstored
  obtain ⟨between, hbetween, hkept⟩ := kept_or_written (hσ.leads (.single hstep)) hleads hk hget
  rw [hbetween, hafter, hbefore] at htrace
  rwa [← List.append_cancel_right htrace]

end CommitReveal.Agent
