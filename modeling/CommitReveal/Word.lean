/-! Block numbers and nonces are 64-bit words. Their arithmetic never wraps: a sum is either
refused when it does not fit or held at the largest word, as the caller says. -/
namespace CommitReveal

abbrev Word := UInt64

namespace Word

/-- The sum, unless it needs a 65th bit. -/
def add? (a b : Word) : Option Word :=
  if a.toNat + b.toNat < UInt64.size then some (a + b) else none

/-- The sum, held at the largest word. -/
def saturatingAdd (a b : Word) : Word :=
  (add? a b).getD (UInt64.ofNat (UInt64.size - 1))

/-- The difference, held at zero. -/
def saturatingSub (a b : Word) : Word :=
  if b ≤ a then a - b else 0

theorem add?_eq_some_iff {a b c : Word} : add? a b = some c ↔ a.toNat + b.toNat = c.toNat := by
  have hc : c.toNat < UInt64.size := c.toNat_lt
  unfold add?
  split
  · rename_i h
    have hs : (a + b).toNat = a.toNat + b.toNat := by
      rw [UInt64.toNat_add, Nat.mod_eq_of_lt h]
    rw [Option.some.injEq, ← UInt64.toNat_inj, hs]
  · constructor
    · intro h; cases h
    · intro h; omega

theorem add?_eq_none_iff {a b : Word} : add? a b = none ↔ UInt64.size ≤ a.toNat + b.toNat := by
  unfold add?
  split <;> simp <;> omega

theorem toNat_saturatingAdd (a b : Word) :
    (saturatingAdd a b).toNat = min (a.toNat + b.toNat) (UInt64.size - 1) := by
  unfold saturatingAdd
  cases h : add? a b with
  | none =>
    have h := add?_eq_none_iff.1 h
    rw [Nat.min_eq_right (by omega)]
    rfl
  | some c =>
    have hc : c.toNat < UInt64.size := c.toNat_lt
    have h := add?_eq_some_iff.1 h
    simp only [Option.getD_some]
    omega

theorem toNat_saturatingSub (a b : Word) : (saturatingSub a b).toNat = a.toNat - b.toNat := by
  unfold saturatingSub
  split
  · rename_i h
    exact UInt64.toNat_sub_of_le a b h
  · rename_i h
    rw [UInt64.le_iff_toNat_le] at h
    have : (0 : UInt64).toNat = 0 := rfl
    omega

end Word

end CommitReveal
