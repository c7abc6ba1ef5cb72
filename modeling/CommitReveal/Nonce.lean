import CommitReveal.Fault
import CommitReveal.Word

/-! Nonces of the signing account. The node's own count lags behind what has just been sent, so the
next value is kept here too and a nonce is never below it. -/
namespace CommitReveal

/-- The larger of the observed and the cached value, and the value to cache after it. -/
def assignNonce (cached : Word) (observed : Option Word) : Except Fault (Word × Word) :=
  let nonce := match observed with
    | some n => max n cached
    | none => cached
  match Word.add? nonce 1 with
  | some following => .ok (nonce, following)
  | none => .error .overflow

/-- A nonce is the cached or the observed value, whichever is larger, and the value to cache comes right
after it. -/
theorem assignNonce_eq_ok {cached nonce following : Word} {observed : Option Word}
    (h : assignNonce cached observed = .ok (nonce, following)) :
    cached ≤ nonce ∧ (∀ count, observed = some count → count ≤ nonce) ∧
      (nonce = cached ∨ observed = some nonce) ∧ following.toNat = nonce.toNat + 1 := by
  unfold assignNonce at h
  cases observed with
  | none =>
    dsimp only at h
    split at h
    · rename_i hadd
      cases h
      have hfollowing := (Word.add?_eq_some_iff.1 hadd).symm
      exact ⟨UInt64.le_refl _, by simp, .inl rfl, hfollowing⟩
    · cases h
  | some o =>
    have hmax : max o cached = if o ≤ cached then cached else o := rfl
    dsimp only at h
    rw [hmax] at h
    split at h
    · rename_i hadd
      cases h
      have hfollowing := (Word.add?_eq_some_iff.1 hadd).symm
      by_cases hle : o ≤ cached
      · rw [if_pos hle] at hfollowing ⊢
        exact ⟨UInt64.le_refl _, by simpa using hle, .inl rfl, hfollowing⟩
      · rw [if_neg hle] at hfollowing ⊢
        exact ⟨UInt64.le_of_lt (UInt64.not_le.1 hle), by simp, .inr rfl, hfollowing⟩
    · cases h

structure NonceCache where
  next : Word
deriving DecidableEq, Repr

namespace NonceCache

def empty : NonceCache := ⟨0⟩

/-- The nonce of the next transaction. -/
def take (c : NonceCache) (observed : Option Word) : Except Fault (Word × NonceCache) := do
  let (nonce, following) ← assignNonce c.next observed
  return (nonce, ⟨following⟩)

/-- Takes back a nonce whose transaction was refused, if it was the last one given out. -/
def release (c : NonceCache) (nonce : Word) : Except Fault NonceCache :=
  match Word.add? nonce 1 with
  | some following => .ok (if c.next = following then ⟨nonce⟩ else c)
  | none => .error .overflow

variable {c c' : NonceCache} {nonce : Word} {observed : Option Word}

theorem take_eq_ok (h : c.take observed = .ok (nonce, c')) :
    assignNonce c.next observed = .ok (nonce, c'.next) := by
  unfold take at h
  cases hassign : assignNonce c.next observed with
  | error f =>
    rw [hassign] at h
    cases h
  | ok given =>
    rw [hassign] at h
    cases h
    rfl

/-- Without a count, and unless it is the largest word, the cached nonce is given out. -/
theorem take_none (hfits : c.next.toNat + 1 < UInt64.size) :
    ∃ c', c.take none = .ok (c.next, c') := by
  cases hadd : Word.add? c.next 1 with
  | none =>
    have hsize : UInt64.size ≤ c.next.toNat + 1 := Word.add?_eq_none_iff.1 hadd
    omega
  | some following =>
    unfold take assignNonce
    dsimp only
    rw [hadd]
    exact ⟨⟨following⟩, rfl⟩

/-- As long as neither the cache nor the count stands at the largest word, there is a nonce. -/
theorem take_of_room {n : Nat} (hroom : n + 1 < UInt64.size) (hnext : c.next.toNat ≤ n)
    (hobserved : ∀ count, observed = some count → count.toNat ≤ n) :
    ∃ nonce c', c.take observed = .ok (nonce, c') ∧ nonce.toNat ≤ n ∧ c'.next.toNat ≤ n + 1 := by
  cases hassign : assignNonce c.next observed with
  | ok given =>
    obtain ⟨nonce, following⟩ := given
    obtain ⟨-, -, hchosen, hfollowing⟩ := assignNonce_eq_ok hassign
    have hnonce : nonce.toNat ≤ n := by
      rcases hchosen with rfl | rfl
      · exact hnext
      · exact hobserved nonce rfl
    refine ⟨nonce, ⟨following⟩, ?_, hnonce, ?_⟩
    · rw [take, hassign]
      rfl
    · show following.toNat ≤ n + 1
      omega
  | error f =>
    -- the larger of the two could not be counted up
    have hmax : (match observed with | some count => max count c.next | none => c.next).toNat ≤ n := by
      cases observed with
      | none => exact hnext
      | some count =>
        have hcount := hobserved count rfl
        have hlarger : max count c.next = if count ≤ c.next then c.next else count := rfl
        dsimp only
        rw [hlarger]
        split <;> assumption
    unfold assignNonce at hassign
    dsimp only at hassign
    split at hassign
    · cases hassign
    · rename_i hadd
      have hsize : UInt64.size ≤ _ + (1 : Word).toNat := Word.add?_eq_none_iff.1 hadd
      have hone : (1 : Word).toNat = 1 := rfl
      omega

/-- Giving back the latest nonce rewinds the cache to it; giving back another changes nothing. -/
theorem release_eq_ok (h : c.release nonce = .ok c') :
    (c.next.toNat = nonce.toNat + 1 ∧ c'.next = nonce) ∨
      (c.next.toNat ≠ nonce.toNat + 1 ∧ c' = c) := by
  unfold release at h
  split at h
  · rename_i following hadd
    have hfollowing : nonce.toNat + 1 = following.toNat := Word.add?_eq_some_iff.1 hadd
    rw [hfollowing]
    split at h
    · rename_i heq
      cases h
      exact .inl ⟨congrArg _ heq, rfl⟩
    · rename_i hne
      cases h
      exact .inr ⟨fun heq => hne (UInt64.toNat_inj.1 heq), rfl⟩
  · cases h

/-- A nonce that is not the largest word can be given back, and the cache is no higher then. -/
theorem release_of_room {n : Nat} (hroom : n + 1 < UInt64.size) (hnonce : nonce.toNat ≤ n) :
    ∃ c', c.release nonce = .ok c' ∧ c'.next.toNat ≤ c.next.toNat := by
  cases hrelease : c.release nonce with
  | ok c' =>
    refine ⟨c', rfl, ?_⟩
    rcases release_eq_ok hrelease with ⟨hlast, hnext⟩ | ⟨-, rfl⟩
    · rw [hnext]
      omega
    · exact Nat.le_refl _
  | error f =>
    unfold release at hrelease
    split at hrelease
    · cases hrelease
    · rename_i hadd
      have hsize : UInt64.size ≤ nonce.toNat + (1 : Word).toNat := Word.add?_eq_none_iff.1 hadd
      have hone : (1 : Word).toNat = 1 := rfl
      omega

end NonceCache

end CommitReveal
