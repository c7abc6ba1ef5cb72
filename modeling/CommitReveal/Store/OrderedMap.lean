import CommitReveal.Bytes.Order
import CommitReveal.Store.Call

/-! A volatile store: its entries in strictly ascending key order. -/
namespace CommitReveal.Store

structure OrderedMap where
  entries : List Entry
  ascending : entries.Pairwise fun a b => a.1 < b.1

namespace OrderedMap

def empty : OrderedMap := ⟨[], .nil⟩

instance : Inhabited OrderedMap := ⟨empty⟩

def find : List Entry → Bytes → Option Bytes
  | [], _ => none
  | (k, v) :: rest, key => if k = key then some v else find rest key

def put : List Entry → Bytes → Bytes → List Entry
  | [], key, value => [(key, value)]
  | (k, v) :: rest, key, value =>
    if key < k then (key, value) :: (k, v) :: rest
    else if k = key then (key, value) :: rest
    else (k, v) :: put rest key value

theorem fst_mem_put {entries : List Entry} {key value : Bytes} {e : Entry}
    (h : e ∈ put entries key value) : e ∈ entries ∨ e.1 = key := by
  induction entries with
  | nil => simp [put] at h; simp [h]
  | cons head rest ih =>
    rcases head with ⟨k, v⟩
    simp only [put] at h
    split at h
    · rcases List.mem_cons.1 h with rfl | h
      · exact .inr rfl
      · exact .inl h
    · split at h
      · rcases List.mem_cons.1 h with rfl | h
        · exact .inr rfl
        · exact .inl (List.mem_cons_of_mem _ h)
      · rcases List.mem_cons.1 h with rfl | h
        · exact .inl List.mem_cons_self
        · rcases ih h with h | h
          · exact .inl (List.mem_cons_of_mem _ h)
          · exact .inr h

theorem put_ascending {entries : List Entry} (h : entries.Pairwise fun a b => a.1 < b.1)
    (key value : Bytes) : (put entries key value).Pairwise fun a b => a.1 < b.1 := by
  induction entries with
  | nil => exact List.pairwise_singleton _ _
  | cons head rest ih =>
    rcases head with ⟨k, v⟩
    have hrest := List.pairwise_cons.1 h
    simp only [put]
    split
    · rename_i hlt
      refine List.pairwise_cons.2 ⟨fun e he => ?_, h⟩
      rcases List.mem_cons.1 he with rfl | he
      · exact hlt
      · exact Bytes.lt_trans hlt (hrest.1 e he)
    · split
      · rename_i heq
        subst heq
        exact List.pairwise_cons.2 ⟨hrest.1, hrest.2⟩
      · rename_i hlt hne
        refine List.pairwise_cons.2 ⟨fun e he => ?_, ih hrest.2⟩
        rcases fst_mem_put he with he | he
        · exact hrest.1 e he
        · rw [he]
          rcases Bytes.lt_trichotomy k key with h | h | h
          · exact h
          · exact absurd h hne
          · exact absurd h hlt

def get? (m : OrderedMap) (key : Bytes) : Option Bytes :=
  find m.entries key

def insert (m : OrderedMap) (key value : Bytes) : OrderedMap :=
  ⟨put m.entries key value, put_ascending m.ascending key value⟩

def erase (m : OrderedMap) (key : Bytes) : OrderedMap :=
  ⟨m.entries.filter fun e => e.1 ≠ key, m.ascending.filter _⟩

/-- From the first key not below `start`, as long as keys begin with it. -/
def scan (m : OrderedMap) (start : Bytes) : List Entry :=
  (m.entries.dropWhile fun e => e.1 < start).takeWhile fun e => e.1.startsWith start

end OrderedMap

end CommitReveal.Store
