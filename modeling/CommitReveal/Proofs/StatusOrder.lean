import CommitReveal.Proofs.Cards

/-! The order of a commitment's stages, and what every write of a record does to it. A final status is
never left; before that the only way back is from awaiting the reveal to committed, and it is open only to
a task whose hash was known to the store, and unfinished, when the task drew it. -/
namespace CommitReveal

namespace Status

/-- How far a commitment has come; the three ways to end are equally far. -/
def rank : Status → Nat
  | .created => 0
  | .committed => 1
  | .pendingReveal => 2
  | .revealed | .expired | .abandoned => 3

def underway : Status → Bool
  | .committed | .pendingReveal => true
  | _ => false

/-- The same stage or a later one. Unless `G` holds, a commitment may also go back from awaiting its
reveal to being committed. -/
def Follows (G : Prop) (old new : Status) : Prop :=
  new = old ∨ old.rank < new.rank ∨ ¬G ∧ old = .pendingReveal ∧ new = .committed

variable {G : Prop} {a b c : Status}

theorem Follows.refl (a : Status) : Follows G a a :=
  .inl rfl

theorem rank_of_terminal (ha : a.isTerminal) : a.rank = 3 := by
  revert ha
  cases a <;> decide

theorem rank_lt_of_open (ha : a.isTerminal = false) : a.rank < 3 := by
  revert ha
  cases a <;> decide

theorem rank_le (a : Status) : a.rank ≤ 3 := by
  cases a <;> decide

theorem Follows.trans (hab : Follows G a b) (hbc : Follows G b c) : Follows G a c := by
  rcases hab with rfl | hab | ⟨hG, rfl, rfl⟩
  · exact hbc
  · rcases hbc with rfl | hbc | ⟨hG, rfl, rfl⟩
    · exact .inr (.inl hab)
    · exact .inr (.inl (Nat.lt_trans hab hbc))
    · -- forward to awaiting the reveal and back again
      cases a with
      | created => exact .inr (.inl (by decide))
      | committed => exact .inl rfl
      | pendingReveal => exact .inr (.inr ⟨hG, rfl, rfl⟩)
      | _ => exact absurd hab (by decide)
  · rcases hbc with rfl | hbc | ⟨-, hback, -⟩
    · exact .inr (.inr ⟨hG, rfl, rfl⟩)
    · cases c with
      | pendingReveal => exact .inl rfl
      | created => exact absurd hbc (by decide)
      | committed => exact absurd hbc (by decide)
      | _ => exact .inr (.inl (by decide))
    · cases hback

theorem follows_final (ha : a.isTerminal = false) (hb : b.isTerminal) : Follows G a b := by
  refine .inr (.inl ?_)
  rw [rank_of_terminal hb]
  exact rank_lt_of_open ha

theorem follows_pendingReveal (ha : a.isTerminal = false) : Follows G a .pendingReveal := by
  cases a with
  | created => exact .inr (.inl (by decide))
  | committed => exact .inr (.inl (by decide))
  | pendingReveal => exact .inl rfl
  | _ => cases ha

theorem follows_committed (ha : a.isTerminal = false) (hG : G → a.underway = false) :
    Follows G a .committed := by
  cases a with
  | created => exact .inr (.inl (by decide))
  | committed => exact .inl rfl
  | pendingReveal => exact .inr (.inr ⟨fun hg => (nomatch hG hg), rfl, rfl⟩)
  | _ => cases ha

theorem not_underway_of_terminal (ha : a.isTerminal) : a.underway = false := by
  revert ha
  cases a <;> decide

theorem Follows.eq_of_terminal (h : Follows G a b) (ha : a.isTerminal) : b = a := by
  rcases h with heq | hlt | ⟨-, rfl, -⟩
  · exact heq
  · have hle := rank_le b
    rw [rank_of_terminal ha] at hlt
    omega
  · cases ha

end Status

namespace Repository

open Status (Follows)

/-- What may be written over the record of a hash by a task that has drawn the hash, if `D`, or has not. -/
structure Revises (G D : Prop) (old : Option CommitRecord) (new : CommitRecord) : Prop where
  follows : ∀ r, old = some r → Follows G r.status new.status
  opened : G → new.status.underway → (∀ r, old = some r → r.status.underway) ∨ D

theorem Revises.mono {G D D' : Prop} {old : Option CommitRecord} {new : CommitRecord}
    (hr : Revises G D old new) (hD : D → D') : Revises G D' old new :=
  ⟨hr.follows, fun hG hunder => (hr.opened hG hunder).imp_right hD⟩

namespace Card

variable {G D : Prop} {c : Card} {new : CommitRecord} {time : Int64} {st : Status}

theorem revises_same {r : CommitRecord} (hr : c.record = some r) (hsame : new.status = r.status) :
    Revises G D c.record new where
  follows r' hr' := by
    obtain rfl := Option.some.inj (hr.symm.trans hr')
    exact .inl hsame
  opened _ hnew := .inl fun r' hr' => by
    obtain rfl := Option.some.inj (hr.symm.trans hr')
    rwa [← hsame]

theorem revises_fresh (hr : c.record = none) : Revises G D c.record new where
  follows _ hr' := nomatch hr.symm.trans hr'
  opened _ _ := .inl fun _ hr' => nomatch hr.symm.trans hr'

theorem revises_setStatus (hfollows : ∀ r, c.record = some r → r.status.isTerminal = false →
      Follows G r.status st)
    (hopened : G → st.underway → (∀ r, c.record = some r → r.status.underway) ∨ D)
    (hnew : (c.setStatus st time).record = some new) : Revises G D c.record new := by
  cases hr : c.record with
  | none => exact hr ▸ revises_fresh hr
  | some r =>
    rw [← hr]
    simp only [setStatus, hr] at hnew
    split at hnew
    · exact revises_same hr (by rw [Option.some.inj (hnew.symm.trans hr)])
    · rename_i hopen
      obtain rfl := Option.some.inj hnew
      by_cases hfinal : r.status.isTerminal
      · -- a final status is written only over itself
        refine revises_same hr ?_
        by_contra hne
        exact hopen (by rw [hfinal, Bool.true_and, decide_eq_true_eq]; exact Ne.symm hne)
      · refine ⟨fun r' hr' => ?_, hopened⟩
        obtain rfl := Option.some.inj (hr.symm.trans hr')
        exact hfollows r hr (by simpa using hfinal)

theorem revises_final (hst : st.isTerminal) (hnew : (c.setStatus st time).record = some new) :
    Revises G D c.record new :=
  revises_setStatus (fun _ _ hopen => Status.follows_final hopen hst)
    (fun _ hunder => absurd hunder (by simp [Status.not_underway_of_terminal hst])) hnew

theorem revises_finish (hst : st.isTerminal) (hnew : (c.finish st time).record = some new) :
    Revises G D c.record new :=
  revises_final (c := c.clearPending) hst hnew

theorem revises_markRevealed {seed : Option Seed} (hnew : (c.markRevealed seed time).record = some new) :
    Revises G D c.record new := by
  unfold markRevealed at hnew
  dsimp only at hnew
  split at hnew
  · exact revises_same hnew rfl
  · exact revises_final (c := { c.clearPending with seed := seed.or c.seed }) rfl hnew

theorem revises_setCommitBlock {block : Word} (hnew : (c.setCommitBlock block time).record = some new) :
    Revises G D c.record new := by
  cases hr : c.record with
  | none => exact hr ▸ revises_fresh hr
  | some r =>
    rw [← hr]
    simp only [setCommitBlock, hr] at hnew
    obtain rfl := Option.some.inj hnew
    exact revises_same hr rfl

theorem revises_storeSeed {seed : Seed} (hnew : (c.storeSeed seed time).record = some new) :
    Revises G D c.record new := by
  cases hr : c.record with
  | none => exact hr ▸ revises_fresh hr
  | some r =>
    rw [← hr]
    simp only [storeSeed, hr, Option.getD_some] at hnew
    obtain rfl := Option.some.inj hnew
    exact revises_same hr rfl

theorem not_underway_storeSeed (seed : Seed) (time : Int64)
    (hc : ∀ r, c.record = some r → r.status.isTerminal) :
    ∃ r, (c.storeSeed seed time).record = some r ∧ r.status.underway = false := by
  cases hr : c.record with
  | none => exact ⟨⟨.created, none, time⟩, by simp [storeSeed, hr], rfl⟩
  | some r => exact ⟨r, by simp [storeSeed, hr], Status.not_underway_of_terminal (hc r hr)⟩

end Card

end Repository

end CommitReveal
