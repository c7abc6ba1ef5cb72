import CommitReveal.FixedBytes

/-! Where the repository keeps things: four entries for a hash, told apart by a mark of three bytes
in front of it, and one entry for the scan cursor. No two of these keys are equal. -/
namespace CommitReveal.Repository

/-- What is kept about a hash. -/
inductive Field where
  | seed
  | tx
  | record
  /-- Present while the hash awaits its reveal. -/
  | pending
deriving DecidableEq, Repr

/-- The ASCII letters `kss`, `kst`, `ksm` and `ksu`. -/
def Field.mark : Field → Bytes
  | .seed => [0x6b, 0x73, 0x73]
  | .tx => [0x6b, 0x73, 0x74]
  | .record => [0x6b, 0x73, 0x6d]
  | .pending => [0x6b, 0x73, 0x75]

def key (field : Field) (hash : Hash) : Bytes :=
  field.mark ++ hash.bytes

/-- The ASCII text `lastSyncBlock`. -/
def cursorKey : Bytes :=
  [0x6c, 0x61, 0x73, 0x74, 0x53, 0x79, 0x6e, 0x63, 0x42, 0x6c, 0x6f, 0x63, 0x6b]

@[simp] theorem length_mark (field : Field) : field.mark.length = 3 := by
  cases field <;> rfl

@[simp] theorem length_key (field : Field) (hash : Hash) : (key field hash).length = 35 := by
  simp [key, hash.length_bytes]

theorem key_inj {f g : Field} {a b : Hash} : key f a = key g b ↔ f = g ∧ a = b := by
  constructor
  · intro h
    have hm := List.append_inj_left h (by simp)
    have hb := List.append_inj_right h (by simp)
    refine ⟨?_, FixedBytes.ext hb⟩
    revert hm
    cases f <;> cases g <;> decide
  · rintro ⟨rfl, rfl⟩
    rfl

theorem key_ne_cursorKey (field : Field) (hash : Hash) : key field hash ≠ cursorKey := by
  intro h
  have := congrArg List.length h
  rw [length_key] at this
  exact absurd this (by decide)

end CommitReveal.Repository
