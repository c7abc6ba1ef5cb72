import CommitReveal.Proofs.Outbox
import Mathlib.Data.List.Nodup
import Mathlib.Data.List.Perm.Subperm
import Mathlib.Order.WellFounded

/-! Which nonces get used up. The cache is rewound by the latest nonce only, so one that is given back
while a later one is still out is lost. With every count right, the accepted nonces and the lost ones
together leave no gap. -/
namespace CommitReveal.Agent

open Program

variable {s : Settings} {i j : Nat} {initial n m : Word} {t t' : Trace} {e : Event}
  {c c' : NonceCache}

def Event.acceptedNonce? : Event → Option Word
  | .answered _ (.chain (.submit _ n)) (.ok _) => some n
  | _ => none

def acceptedNonces (t : Trace) : List Word :=
  t.filterMap Event.acceptedNonce?

/-- Every count of transactions that was read is the initial one and as many as were accepted by then. -/
def CountsFrom (initial : Word) : Trace → Prop
  | [] => True
  | e :: t => CountsFrom initial t ∧ ∀ i agent count,
      e = .answered i (.chain (.transactionCount agent)) (.ok count) →
      count.toNat = initial.toNat + (acceptedNonces t).length

/-- The nonce was given back when a higher one was accepted or held, or itself lost. -/
def Lost : Trace → Word → Prop
  | [], _ => False
  | e :: t, n => Lost t n ∨ ((∃ i, e = .answered i (.memory (.releaseNonce n)) (.ok ())) ∧
      ∃ m, n < m ∧ ((∃ j, Outstanding j m t) ∨ Lost t m))

def Consecutive (first : Word) (l : List Word) : Prop :=
  (l.map UInt64.toNat).Perm (List.range' first.toNat l.length)

def Outbox.Idle (σ : Outbox) : Prop :=
  ∀ p ∈ σ.sendings, ∃ outcome, p = .done outcome

theorem mem_acceptedNonces : n ∈ acceptedNonces t ↔
    ∃ i what tx, Event.answered i (.chain (.submit what n)) (.ok tx) ∈ t := by
  unfold acceptedNonces
  rw [List.mem_filterMap]
  constructor
  · rintro ⟨e, he, hn⟩
    unfold Event.acceptedNonce? at hn
    split at hn
    · rename_i i what n' tx
      obtain rfl := Option.some.inj hn
      exact ⟨i, what, tx, he⟩
    · cases hn
  · rintro ⟨i, what, tx, he⟩
    exact ⟨_, he, rfl⟩

theorem exists_outstanding_of_accepted (hn : n ∈ acceptedNonces t) : ∃ i, Outstanding i n t := by
  obtain ⟨i, what, tx, hmem⟩ := mem_acceptedNonces.1 hn
  exact ⟨i, .inl ⟨what, tx, hmem⟩⟩

theorem acceptedNonces_plain (hplain : e.bearsNonce = false) :
    acceptedNonces (e :: t) = acceptedNonces t := by
  unfold acceptedNonces
  apply List.filterMap_cons_none
  unfold Event.acceptedNonce?
  split
  · cases hplain
  · rfl

theorem acceptedNonces_suffix (ht : t <:+ t') : acceptedNonces t <:+ acceptedNonces t' := by
  obtain ⟨later, rfl⟩ := ht
  unfold acceptedNonces
  rw [List.filterMap_append]
  exact List.suffix_append _ _

theorem CountsFrom.le (h : CountsFrom initial t) {agent : Address} {count : Word}
    (hread : Event.answered i (.chain (.transactionCount agent)) (.ok count) ∈ t) :
    count.toNat ≤ initial.toNat + (acceptedNonces t).length := by
  induction t with
  | nil => cases hread
  | cons e t ih =>
    have hle := (acceptedNonces_suffix (List.suffix_cons e t)).length_le
    rcases List.mem_cons.1 hread with rfl | hread
    · have hcount := h.2 i agent count rfl
      omega
    · have hcount := ih h.1 hread
      omega

theorem lost_returned : Lost (.answered i (.memory (.releaseNonce n)) (.ok ()) :: t) m ↔
    Lost t m ∨ (m = n ∧ ∃ k, n < k ∧ ((∃ j, Outstanding j k t) ∨ Lost t k)) := by
  rw [Lost]
  constructor
  · rintro (hlost | ⟨⟨i', heq⟩, hhigher⟩)
    · exact .inl hlost
    · cases heq
      exact .inr ⟨rfl, hhigher⟩
  · rintro (hlost | ⟨rfl, hhigher⟩)
    · exact .inl hlost
    · exact .inr ⟨⟨i, rfl⟩, hhigher⟩

theorem lost_otherwise (he : ∀ i n, e ≠ .answered i (.memory (.releaseNonce n)) (.ok ())) :
    Lost (e :: t) m ↔ Lost t m := by
  rw [Lost, or_iff_left]
  rintro ⟨⟨i, heq⟩, -⟩
  exact he i m heq

theorem length_le_of_between {l : List Word} {lo hi : Word} (hnodup : l.Nodup)
    (hbetween : ∀ n ∈ l, lo ≤ n ∧ n < hi) : l.length ≤ hi.toNat - lo.toNat := by
  have hnats : (l.map UInt64.toNat).Nodup := hnodup.map fun _ _ => UInt64.toNat_inj.1
  have hsubset : l.map UInt64.toNat ⊆ List.range' lo.toNat (hi.toNat - lo.toNat) := by
    intro k hk
    obtain ⟨n, hn, rfl⟩ := List.mem_map.1 hk
    obtain ⟨hlo, hhi⟩ := hbetween n hn
    have hlo : lo.toNat ≤ n.toNat := hlo
    have hhi : n.toNat < hi.toNat := hhi
    rw [List.mem_range'_1]
    omega
  simpa using (hnats.subperm hsubset).length_le

theorem Consecutive.mem {l : List Word} {lo : Word} (h : Consecutive lo l) (hm : m ∈ l) (hlo : lo ≤ n)
    (hle : n ≤ m) : n ∈ l := by
  unfold Consecutive at h
  have hmrange : m.toNat ∈ List.range' lo.toNat l.length := h.subset (List.mem_map_of_mem hm)
  have hnrange : n.toNat ∈ List.range' lo.toNat l.length := by
    rw [List.mem_range'_1] at hmrange ⊢
    rw [UInt64.le_iff_toNat_le] at hlo hle
    omega
  obtain ⟨k, hk, heq⟩ := List.mem_map.1 (h.symm.subset hnrange)
  rwa [← UInt64.toNat_inj.1 heq]

/-- From the initial count up to the next nonce, every nonce is in use or lost. -/
structure Filled (initial : Word) (c : NonceCache) (t : Trace) : Prop where
  below {n : Word} : Lost t n → n < c.next
  free {n : Word} {j : Nat} : Lost t n → ¬Outstanding j n t
  used {n : Word} : initial ≤ n → n < c.next → (∃ i, Outstanding i n t) ∨ Lost t n
  nodup : (acceptedNonces t).Nodup

theorem Filled.count_le (h : Filled initial c t) (hsound : Sound c t) (hcounts : CountsFrom initial t)
    (hfloor : ∀ n ∈ acceptedNonces t, initial ≤ n) {agent : Address} {count : Word}
    (hread : Event.answered i (.chain (.transactionCount agent)) (.ok count) ∈ t) :
    count.toNat ≤ max initial.toNat c.next.toNat := by
  have hlength : (acceptedNonces t).length ≤ c.next.toNat - initial.toNat := by
    apply length_le_of_between h.nodup
    intro n hn
    obtain ⟨i, hi⟩ := exists_outstanding_of_accepted hn
    exact ⟨hfloor n hn, hsound.below hi⟩
  have hcount := hcounts.le hread
  omega

theorem Given.not_mem {u : Transcript interface} (h : Given n u) {what : Chain.Submission} {tx : TxHash} :
    ⟨.chain (.submit what m), .ok tx⟩ ∉ u := by
  obtain ⟨hcounted⟩ := h
  cases hcounted <;> simp

theorem Given.outstanding (h : Given n (answersOf i t)) : Outstanding i n t :=
  outstanding_iff.2 (h.keeps.2 rfl)

theorem Filled.given (h : Filled initial c t) (hsound : Sound c t) (hcounts : CountsFrom initial t)
    (hfloor : ∀ n ∈ acceptedNonces t, initial ≤ n) {observed : Option Word}
    (hcounted : Counted observed (answersOf i t)) (htake : c.take observed = .ok (n, c')) :
    Filled initial c' (.answered i (.memory (.takeNonce observed)) (.ok n) :: t) := by
  obtain ⟨hcached, -, hfrom, hnext⟩ := assignNonce_eq_ok (NonceCache.take_eq_ok htake)
  have hlost {m : Word} := lost_otherwise (m := m) (t := t)
    (e := .answered i (.memory (.takeNonce observed)) (.ok n)) (by simp)
  have hcached : c.next.toNat ≤ n.toNat := hcached
  -- a nonce above both would leave out numbers that were never given out
  have hmax : n.toNat ≤ max initial.toNat c.next.toNat := by
    rcases hfrom with rfl | rfl
    · omega
    · obtain ⟨agent, hread⟩ := hcounted.read_mem
      exact h.count_le hsound hcounts hfloor (mem_answersOf.1 hread)
  constructor
  · intro m hm
    have hlt : m.toNat < c.next.toNat := h.below (hlost.1 hm)
    rw [UInt64.lt_iff_toNat_lt]
    omega
  · intro m j hm hout
    have hlt : m.toNat < c.next.toNat := h.below (hlost.1 hm)
    rcases (outstanding_given hcounted).1 hout with hout | ⟨-, rfl⟩
    · exact h.free (hlost.1 hm) hout
    · omega
  · intro m hinitial hm
    have hinitial' : initial.toNat ≤ m.toNat := hinitial
    have hm : m.toNat < c'.next.toNat := hm
    simp only [outstanding_given hcounted, hlost]
    by_cases hold : m < c.next
    · rcases h.used hinitial hold with ⟨j, hj⟩ | hm
      · exact .inl ⟨j, .inl hj⟩
      · exact .inr hm
    · have hold : c.next.toNat ≤ m.toNat := UInt64.not_lt.1 hold
      exact .inl ⟨i, .inr ⟨rfl, UInt64.toNat_inj.1 (by omega)⟩⟩
  · exact h.nodup

theorem Filled.accepted (h : Filled initial c t) (hsound : Sound c t)
    (hgiven : Given n (answersOf i t)) {what : Chain.Submission} {tx : TxHash} :
    Filled initial c (.answered i (.chain (.submit what n)) (.ok tx) :: t) := by
  have hlost {m : Word} := lost_otherwise (m := m) (t := t)
    (e := .answered i (.chain (.submit what n)) (.ok tx)) (by simp)
  constructor
  · intro m hm
    exact h.below (hlost.1 hm)
  · intro m j hm
    rw [outstanding_accepted hgiven]
    exact h.free (hlost.1 hm)
  · intro m hinitial hm
    simp only [outstanding_accepted hgiven, hlost]
    exact h.used hinitial hm
  · have hfresh : n ∉ acceptedNonces t := by
      intro hn
      obtain ⟨j, what', tx', hmem⟩ := mem_acceptedNonces.1 hn
      obtain rfl := hsound.distinct hgiven.outstanding (.inl ⟨what', tx', hmem⟩)
      exact hgiven.not_mem (mem_answersOf.2 hmem)
    exact List.nodup_cons.2 ⟨hfresh, h.nodup⟩

theorem lost_or_free (hsound : Sound c t) (hrefused : Refused n (answersOf i t))
    (hfree : ∀ {n : Word} {j : Nat}, Lost t n → ¬Outstanding j n t)
    (hlost : Lost (.answered i (.memory (.releaseNonce n)) (.ok ()) :: t) m) :
    ¬Outstanding j m (.answered i (.memory (.releaseNonce n)) (.ok ()) :: t) := by
  intro hafter
  obtain ⟨hout, hother⟩ := (outstanding_returned hrefused).1 hafter
  rcases lost_returned.1 hlost with hlost | ⟨rfl, -⟩
  · exact hfree hlost hout
  · exact hother ⟨hsound.distinct hout hrefused.outstanding, rfl⟩

/-- The latest nonce given back leaves no trace. -/
theorem Filled.rewound (h : Filled initial c t) (hsound : Sound c t)
    (hrefused : Refused n (answersOf i t)) (hlatest : c.next.toNat = n.toNat + 1)
    (hback : c'.next = n) :
    Filled initial c' (.answered i (.memory (.releaseNonce n)) (.ok ()) :: t) := by
  -- no nonce in use or lost is higher, so this one is not lost
  have hnone {m : Word} (hm : m < c.next) : ¬n < m := by
    rw [UInt64.lt_iff_toNat_lt] at hm ⊢
    omega
  have hlost {m : Word} :
      Lost (.answered i (.memory (.releaseNonce n)) (.ok ()) :: t) m ↔ Lost t m := by
    rw [lost_returned, or_iff_left]
    rintro ⟨rfl, k, hk, ⟨j, hj⟩ | hlost⟩
    · exact hnone (hsound.below hj) hk
    · exact hnone (h.below hlost) hk
  refine ⟨fun {m} hafter => ?_, lost_or_free hsound hrefused h.free, fun {m} hinitial hm => ?_, h.nodup⟩
  · have hm : Lost t m := hlost.1 hafter
    have hlt : m.toNat < c.next.toNat := h.below hm
    have hne : m.toNat ≠ n.toNat := by
      intro heq
      obtain rfl := UInt64.toNat_inj.1 heq
      exact h.free hm hrefused.outstanding
    rw [hback, UInt64.lt_iff_toNat_lt]
    omega
  · rw [hback, UInt64.lt_iff_toNat_lt] at hm
    have hlt : m < c.next := by
      rw [UInt64.lt_iff_toNat_lt]
      omega
    have hne : m ≠ n := by
      rintro rfl
      omega
    simp only [outstanding_returned hrefused, hlost]
    rcases h.used hinitial hlt with ⟨j, hj⟩ | hm
    · exact .inl ⟨j, hj, fun hsame => hne hsame.2⟩
    · exact .inr hm

theorem Filled.losing (h : Filled initial c t) (hsound : Sound c t)
    (hrefused : Refused n (answersOf i t)) (hlater : c.next.toNat ≠ n.toNat + 1) :
    Filled initial c (.answered i (.memory (.releaseNonce n)) (.ok ()) :: t) := by
  have hbelow : n < c.next := hsound.below hrefused.outstanding
  refine ⟨fun {m} hm => ?_, lost_or_free hsound hrefused h.free, fun {m} hinitial hm => ?_, h.nodup⟩
  · rcases lost_returned.1 hm with hm | ⟨rfl, -⟩
    · exact h.below hm
    · exact hbelow
  · simp only [outstanding_returned hrefused, lost_returned]
    rcases h.used hinitial hm with ⟨j, hj⟩ | hm
    · by_cases hsame : j = i ∧ m = n
      · -- the number right after it is below the next nonce, so it is in use or lost itself
        obtain ⟨rfl, rfl⟩ := hsame
        have hbelow : m.toNat < c.next.toNat := hbelow
        cases hadd : Word.add? m 1 with
        | none =>
          have hsize : UInt64.size ≤ m.toNat + 1 := Word.add?_eq_none_iff.1 hadd
          have hnext : c.next.toNat < UInt64.size := c.next.toNat_lt
          omega
        | some k =>
          have hk : m.toNat + 1 = k.toNat := Word.add?_eq_some_iff.1 hadd
          have hmk : m < k := by
            rw [UInt64.lt_iff_toNat_lt]
            omega
          have hnext : k < c.next := by
            rw [UInt64.lt_iff_toNat_lt]
            omega
          exact .inr (.inr ⟨rfl, k, hmk, h.used (UInt64.le_trans hinitial (UInt64.le_of_lt hmk)) hnext⟩)
      · exact .inl ⟨j, hj, hsame⟩
    · exact .inr (.inl hm)

theorem Filled.returned (h : Filled initial c t) (hsound : Sound c t)
    (hrefused : Refused n (answersOf i t)) (hrelease : c.release n = .ok c') :
    Filled initial c' (.answered i (.memory (.releaseNonce n)) (.ok ()) :: t) := by
  rcases NonceCache.release_eq_ok hrelease with ⟨hlatest, hback⟩ | ⟨hlater, rfl⟩
  · exact h.rewound hsound hrefused hlatest hback
  · exact h.losing hsound hrefused hlater

theorem Filled.effect (h : Filled initial c t) (hsound : Sound c t) (hcounts : CountsFrom initial t)
    (hfloor : ∀ n ∈ acceptedNonces t, initial ≤ n) (heffect : Effect c t e c') :
    Filled initial c' (e :: t) := by
  cases heffect with
  | given counted take => exact h.given hsound hcounts hfloor counted take
  | accepted given => exact h.accepted hsound given
  | returned refused release => exact h.returned hsound refused release
  | nothing plain =>
    have hlost {m : Word} : Lost (e :: t) m ↔ Lost t m := by
      apply lost_otherwise
      rintro i n rfl
      cases plain
    constructor
    · intro m hm
      exact h.below (hlost.1 hm)
    · intro m j hm
      rw [outstanding_plain plain]
      exact h.free (hlost.1 hm)
    · intro m hinitial hm
      simp only [outstanding_plain plain, hlost]
      exact h.used hinitial hm
    · rw [acceptedNonces_plain plain]
      exact h.nodup

theorem Settled.accepted {outcome : Except ChainError TxHash} {u : Transcript interface}
    (h : Settled outcome u) (hkeeps : Keeps n u) :
    ∃ what tx, ⟨.chain (.submit what n), .ok tx⟩ ∈ u := by
  cases outcome with
  | ok tx =>
    obtain ⟨n', what, u', hgiven, rfl⟩ := h
    rw [hgiven.keeps_accepted] at hkeeps
    exact ⟨what, tx, by simp [hkeeps]⟩
  | error cause =>
    obtain ⟨n', u', hrefused, rfl⟩ := h
    exact absurd hkeeps hrefused.keeps_returned

namespace Outbox

variable {σ τ : Outbox}

theorem Tended.accepted (h : Tended σ) (hidle : σ.Idle) (hn : Outstanding i n σ.shared.trace) :
    n ∈ acceptedNonces σ.shared.trace := by
  rw [outstanding_iff] at hn
  cases hp : σ.sendings[i]? with
  | none =>
    rw [h.unborn (List.getElem?_eq_none_iff.1 hp)] at hn
    simp [Keeps] at hn
  | some p =>
    obtain ⟨outcome, rfl⟩ := hidle p (List.mem_of_getElem? hp)
    obtain ⟨what, tx, hmem⟩ := Settled.accepted (h.kept hp) hn
    exact mem_acceptedNonces.2 ⟨i, what, tx, mem_answersOf.1 hmem⟩

end Outbox

end CommitReveal.Agent
