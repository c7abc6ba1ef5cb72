import CommitReveal.Bytes

/-! Byte strings are ordered bytewise, a proper beginning first. The strings that begin with a given
one form an interval of that order; `bound?` is its least upper bound outside, where one exists. -/
namespace CommitReveal.Bytes

theorem lt_irrefl (a : Bytes) : ¬a < a :=
  List.lt_irrefl a

theorem lt_trans {a b c : Bytes} (hab : a < b) (hbc : b < c) : a < c :=
  List.lt_trans hab hbc

theorem lt_trichotomy (a b : Bytes) : a < b ∨ a = b ∨ b < a := by
  by_cases hab : a < b
  · exact .inl hab
  · by_cases hba : b < a
    · exact .inr (.inr hba)
    · exact .inr (.inl (List.le_antisymm hba hab))

/-- The least byte string above every string that begins with `start`: trailing bytes 255 go and the
byte before them is raised by one. There is none when every byte is 255. -/
def bound? (start : Bytes) : Option Bytes :=
  match start.reverse.dropWhile (· == 255) with
  | [] => none
  | last :: front => some ((last + 1) :: front).reverse

end CommitReveal.Bytes
