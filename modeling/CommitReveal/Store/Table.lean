import CommitReveal.Bytes.Order
import CommitReveal.Store.Call

/-! A durable store: one table whose rows have distinct keys and no order of their own. A scan asks
for an interval of keys and sorts what it finds. -/
namespace CommitReveal.Store

structure Table where
  rows : List Entry
  distinct : (rows.map (·.1)).Nodup

namespace Table

def empty : Table := ⟨[], .nil⟩

instance : Inhabited Table := ⟨empty⟩

def get? (t : Table) (key : Bytes) : Option Bytes :=
  (t.rows.find? fun row => row.1 == key).map (·.2)

/-- Replaces the row of a known key, else adds a row. -/
def upsertRows (rows : List Entry) (key value : Bytes) : List Entry :=
  if key ∈ rows.map (·.1) then rows.map fun row => if row.1 = key then (key, value) else row
  else rows ++ [(key, value)]

theorem upsertRows_distinct {rows : List Entry} (h : (rows.map (·.1)).Nodup) (key value : Bytes) :
    ((upsertRows rows key value).map (·.1)).Nodup := by
  unfold upsertRows
  split
  · have same : (rows.map fun row => if row.1 = key then (key, value) else row).map (·.1) =
        rows.map (·.1) := by
      rw [List.map_map]
      refine List.map_congr_left fun row _ => ?_
      simp only [Function.comp_apply]
      split
      · rename_i heq; exact heq.symm
      · rfl
    rw [same]
    exact h
  · rename_i hnew
    rw [List.map_append]
    refine List.nodup_append.2 ⟨h, by simp, ?_⟩
    intro a ha b hb heq
    simp only [List.map_cons, List.map_nil, List.mem_singleton] at hb
    exact hnew (hb ▸ heq ▸ ha)

def upsert (t : Table) (key value : Bytes) : Table :=
  ⟨upsertRows t.rows key value, upsertRows_distinct t.distinct key value⟩

def delete (t : Table) (key : Bytes) : Table :=
  ⟨t.rows.filter fun row => row.1 ≠ key,
    List.Nodup.sublist (List.filter_sublist.map _) t.distinct⟩

/-- The rows whose key is not below `low` and, if there is a bound, below it, in key order. -/
def range (t : Table) (low : Bytes) (bound : Option Bytes) : List Entry :=
  let inside (row : Entry) : Bool := !decide (row.1 < low) && bound.all fun high => row.1 < high
  (t.rows.filter inside).mergeSort fun a b => !decide (b.1 < a.1)

def scan (t : Table) (start : Bytes) : List Entry :=
  t.range start start.bound?

end Table

end CommitReveal.Store
