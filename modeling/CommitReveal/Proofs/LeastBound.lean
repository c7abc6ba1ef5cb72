import CommitReveal.Proofs.Lookup

/-! The bound of a beginning is the least byte string above all that begin with it, because these lie together, from
the beginning itself up to the bound. Looking for it never asks for more than a byte can hold. -/
namespace CommitReveal.Bytes

section Bound

variable {start high other : Bytes}

def add? (a b : UInt8) : Option UInt8 :=
  if a.toNat + b.toNat < UInt8.size then some (a + b) else none

/-- Looks for a bound from the end of the bytes, which are listed from there. A byte of 255 goes; the first below it is
raised by one and ends the search. There is no answer if the raised byte would not fit. -/
def seek : (reversed : Bytes) → Option (Option Bytes)
  | [] => some none
  | last :: front =>
    if last < 255 then (add? last 1).map fun raised => some (raised :: front).reverse
    else seek front

theorem add?_one {last : UInt8} (h : last < 255) : add? last 1 = some (last + 1) := by
  have hlt : last.toNat < 255 := h
  have hone : (1 : UInt8).toNat = 1 := rfl
  refine if_pos ?_
  rw [hone]
  exact Nat.succ_lt_succ hlt

/-- The search finds the bound, and no byte is raised beyond what it can hold. -/
theorem seek_reverse (start : Bytes) : seek start.reverse = some start.bound? := by
  unfold bound?
  generalize start.reverse = reversed
  induction reversed with
  | nil => rfl
  | cons last front ih =>
    rw [seek]
    by_cases hlast : last < 255
    · have hne : last ≠ 255 := fun heq => UInt8.lt_irrefl _ (heq ▸ hlast)
      rw [if_pos hlast, add?_one hlast, List.dropWhile_cons_of_neg (by simpa using hne)]
      rfl
    · have heq : last = 255 := UInt8.le_antisymm (le_last last) (UInt8.not_lt.1 hlast)
      rw [if_neg hlast, ih, List.dropWhile_cons_of_pos (by simpa using heq)]

/-- Above every string that begins with `start`. -/
def Above (start other : Bytes) : Prop :=
  ∀ key : Bytes, key.startsWith start → key < other

theorem startsWith_refl (start : Bytes) : start.startsWith start :=
  List.isPrefixOf_iff_prefix.2 List.prefix_rfl

theorem above_bound (h : start.bound? = some high) : Above start high :=
  fun key hkey => ((startsWith_iff key start).1 hkey).2 high h

theorem Above.exists_not_lt (h : Above start other) : ∃ high, start.bound? = some high ∧ ¬other < high := by
  by_contra hbelow
  have hstart : ¬other < start := fun hlt => lt_irrefl start (lt_trans (h start (startsWith_refl start)) hlt)
  have hother : other.startsWith start := (startsWith_iff other start).2
    ⟨hstart, fun high hhigh => Classical.not_not.1 fun hlt => hbelow ⟨high, hhigh, hlt⟩⟩
  exact lt_irrefl other (h other hother)

theorem bound?_eq_some_iff :
    start.bound? = some high ↔ Above start high ∧ ∀ other, Above start other → ¬other < high := by
  constructor
  · intro hbound
    refine ⟨above_bound hbound, fun other habove => ?_⟩
    obtain ⟨high', hbound', hle⟩ := habove.exists_not_lt
    obtain rfl : high' = high := Option.some.inj (hbound'.symm.trans hbound)
    exact hle
  · rintro ⟨habove, hleast⟩
    obtain ⟨high', hbound, hle⟩ := habove.exists_not_lt
    rcases lt_trichotomy high' high with hlt | rfl | hlt
    · exact absurd hlt (hleast high' (above_bound hbound))
    · exact hbound
    · exact absurd hlt hle

theorem bound?_eq_none_iff : start.bound? = none ↔ ∀ other, ¬Above start other := by
  constructor
  · intro hnone other habove
    obtain ⟨high, hbound, -⟩ := habove.exists_not_lt
    rw [hnone] at hbound
    cases hbound
  · intro hall
    exact Option.eq_none_iff_forall_ne_some.2 fun high hbound => hall high (above_bound hbound)

/-- The bound of a beginning is the least string above all that begin with it, and there is one just if
some string is above them all. -/
theorem bound_least (start : Bytes) :
    seek start.reverse = some start.bound? ∧
      (∀ high, start.bound? = some high ↔ Above start high ∧ ∀ other, Above start other → ¬other < high) ∧
      (start.bound? = none ↔ ∀ other, ¬Above start other) :=
  ⟨seek_reverse start, fun _ => bound?_eq_some_iff, bound?_eq_none_iff⟩

/-- A run of saturated bytes at the end goes with the byte that is raised; without such a byte there is no bound. -/
example : bound? [107, 115, 117] = some [107, 115, 118] ∧ bound? [1, 255, 255] = some [2] ∧
    bound? [255, 255] = none ∧ bound? [] = none := by decide

end Bound

end CommitReveal.Bytes
