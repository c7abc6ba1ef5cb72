import CommitReveal.Store.Backend
import Mathlib.Data.List.TakeWhile

/-! What a store holds under a key, and how each call changes that. Both kinds of store are seen
through `get?` alone from here on. -/
namespace CommitReveal

namespace Bytes

theorem bound?_cons (b : UInt8) (rest : Bytes) :
    bound? (b :: rest) =
      match bound? rest with
      | some high => some (b :: high)
      | none => if b = 255 then none else some [b + 1] := by
  unfold bound?
  rw [List.reverse_cons, List.dropWhile_append]
  cases h : rest.reverse.dropWhile (· == 255) with
  | nil => by_cases hb : b = 255 <;> simp [hb]
  | cons last front => simp

theorem lt_succ_iff {b c : UInt8} (hb : b ≠ 255) : c < b + 1 ↔ c ≤ b := by
  have hne : b.toNat ≠ 255 := fun h => hb (UInt8.toNat_inj.1 h)
  have hlt := b.toNat_lt
  rw [UInt8.lt_iff_toNat_lt, UInt8.le_iff_toNat_le, UInt8.toNat_add, UInt8.toNat_one]
  omega

theorem le_last (c : UInt8) : c ≤ 255 := by
  have hlt := c.toNat_lt
  rw [UInt8.le_iff_toNat_le]
  exact Nat.le_of_lt_succ hlt

theorem startsWith_cons (c b : UInt8) (key rest : Bytes) :
    startsWith (c :: key) (b :: rest) ↔ c = b ∧ startsWith key rest := by
  unfold startsWith
  rw [List.isPrefixOf_iff_prefix, List.isPrefixOf_iff_prefix, List.cons_prefix_cons, eq_comm]

/-- The strings that begin with `start` reach from `start` to its bound. -/
theorem startsWith_iff (key start : Bytes) :
    key.startsWith start ↔ ¬key < start ∧ ∀ high, start.bound? = some high → key < high := by
  induction start generalizing key with
  | nil => simp [startsWith, bound?]
  | cons b rest ih =>
    cases key with
    | nil => simp [startsWith]
    | cons c key =>
      rw [startsWith_cons, ih, bound?_cons, List.cons_lt_cons_iff]
      cases hrest : bound? rest with
      | some high =>
        simp only [Option.some.injEq, forall_eq', List.cons_lt_cons_iff]
        grind
      | none =>
        have hc := le_last c
        by_cases hb : b = 255
        · simp only [if_pos hb, reduceCtorEq, false_implies, implies_true, and_true]
          grind
        · have hsucc := lt_succ_iff (c := c) hb
          have hnil := List.not_lt_nil key
          simp only [if_neg hb, Option.some.injEq, forall_eq', List.cons_lt_cons_iff, hsucc, hnil,
            reduceCtorEq, false_implies, implies_true, and_true, and_false, or_false]
          grind

end Bytes

namespace Store

namespace OrderedMap

theorem find_put (entries : List Entry) (key value k : Bytes) :
    find (put entries key value) k = if k = key then some value else find entries k := by
  induction entries with
  | nil => simp [put, find, eq_comm]
  | cons e rest ih =>
    rcases e with ⟨k', v⟩
    simp only [put]
    split
    · grind [find]
    · split <;> grind [find]

theorem find_filter (entries : List Entry) (key k : Bytes) :
    find (entries.filter fun e => e.1 ≠ key) k = if k = key then none else find entries k := by
  induction entries with
  | nil => simp [find]
  | cons e rest ih =>
    rcases e with ⟨k', v⟩
    by_cases h : k' = key <;> grind [find]

theorem find_of_mem {entries : List Entry} (h : (entries.map (·.1)).Nodup) {e : Entry}
    (he : e ∈ entries) : find entries e.1 = some e.2 := by
  induction entries with
  | nil => cases he
  | cons head rest ih =>
    rcases head with ⟨k, v⟩
    obtain ⟨hhead, hrest⟩ := List.nodup_cons.1 h
    rcases List.mem_cons.1 he with rfl | he
    · simp [find]
    · have hne : k ≠ e.1 := fun hk => hhead (hk ▸ List.mem_map_of_mem (f := (·.1)) he)
      simp [find, hne, ih hrest he]

theorem nodup_keys (m : OrderedMap) : (m.entries.map (·.1)).Nodup := by
  rw [List.Nodup, List.pairwise_map]
  refine m.ascending.imp fun {a b} hab => ?_
  intro heq
  rw [heq] at hab
  exact Bytes.lt_irrefl b.1 hab

theorem mem_scan {m : OrderedMap} {start : Bytes} {e : Entry} (h : e ∈ m.scan start) :
    e.1.startsWith start ∧ m.get? e.1 = some e.2 := by
  have hmem : e ∈ m.entries := (List.dropWhile_sublist _).subset ((List.takeWhile_sublist _).subset h)
  have hstart := List.mem_takeWhile_imp (p := fun e : Entry => e.1.startsWith start) h
  exact ⟨hstart, find_of_mem m.nodup_keys hmem⟩

theorem mem_of_find {entries : List Entry} {k v : Bytes} (h : find entries k = some v) :
    (k, v) ∈ entries := by
  induction entries with
  | nil => cases h
  | cons head rest ih =>
    rcases head with ⟨k', v'⟩
    simp only [find] at h
    split at h
    · rename_i heq
      subst heq
      cases h
      exact List.mem_cons_self
    · exact List.mem_cons_of_mem _ (ih h)

theorem mem_takeWhile_startsWith {entries : List Entry} {start : Bytes}
    (hasc : entries.Pairwise fun a b => a.1 < b.1) (hlow : ∀ e ∈ entries, ¬e.1 < start) {e : Entry}
    (he : e ∈ entries) (hstart : e.1.startsWith start) :
    e ∈ entries.takeWhile fun e => e.1.startsWith start := by
  induction entries with
  | nil => cases he
  | cons head rest ih =>
    obtain ⟨hhead, hrest⟩ := List.pairwise_cons.1 hasc
    have hbegins : head.1.startsWith start := by
      rcases List.mem_cons.1 he with rfl | he
      · exact hstart
      · refine (Bytes.startsWith_iff head.1 start).2 ⟨hlow head List.mem_cons_self, fun high hhigh => ?_⟩
        exact Bytes.lt_trans (hhead e he) (((Bytes.startsWith_iff e.1 start).1 hstart).2 high hhigh)
    rw [List.takeWhile_cons_of_pos (p := fun e : Entry => e.1.startsWith start) hbegins]
    rcases List.mem_cons.1 he with rfl | he
    · exact List.mem_cons_self
    · exact List.mem_cons_of_mem _ (ih hrest (fun e he => hlow e (List.mem_cons_of_mem _ he)) he)

theorem mem_scan_of {m : OrderedMap} {start : Bytes} {k v : Bytes} (hstart : k.startsWith start)
    (hget : m.get? k = some v) : (k, v) ∈ m.scan start := by
  have hmem : (k, v) ∈ m.entries := mem_of_find hget
  rw [← List.takeWhile_append_dropWhile (p := fun e : Entry => decide (e.1 < start)) (l := m.entries)] at hmem
  have hdrop : (k, v) ∈ m.entries.dropWhile fun e => e.1 < start := by
    refine (List.mem_append.1 hmem).resolve_left fun htake => ?_
    have hlow := List.mem_takeWhile_imp htake
    exact ((Bytes.startsWith_iff k start).1 hstart).1 (of_decide_eq_true hlow)
  have hasc : (m.entries.dropWhile fun e => e.1 < start).Pairwise fun a b => a.1 < b.1 :=
    m.ascending.sublist (List.dropWhile_sublist _)
  refine mem_takeWhile_startsWith hasc (fun e he hlt => ?_) hdrop hstart
  -- the first key that is left is not below the start, and the others are above it
  cases hleft : m.entries.dropWhile fun e => e.1 < start with
  | nil => rw [hleft] at he; cases he
  | cons head rest =>
    have hhead := List.head?_dropWhile_not (fun e : Entry => decide (e.1 < start)) m.entries
    rw [hleft] at he hasc hhead
    have hnot : ¬head.1 < start := of_decide_eq_false hhead
    rcases List.mem_cons.1 he with rfl | he
    · exact hnot hlt
    · exact hnot (Bytes.lt_trans ((List.pairwise_cons.1 hasc).1 e he) hlt)

end OrderedMap

namespace Table

open OrderedMap (find)

theorem get?_eq_find (t : Table) (key : Bytes) : t.get? key = find t.rows key := by
  unfold get?
  induction t.rows with
  | nil => rfl
  | cons row rest ih => by_cases h : row.1 = key <;> simp [find, h, ih]

theorem find_replace (rows : List Entry) (key value k : Bytes) :
    find (rows.map fun row => if row.1 = key then (key, value) else row) k =
      if k = key ∧ key ∈ rows.map (·.1) then some value else find rows k := by
  induction rows with
  | nil => simp [find]
  | cons row rest ih =>
    rcases row with ⟨k', v⟩
    by_cases h : k' = key <;> grind [find]

theorem find_append (rows : List Entry) (key value k : Bytes) (h : key ∉ rows.map (·.1)) :
    find (rows ++ [(key, value)]) k = if k = key then some value else find rows k := by
  induction rows with
  | nil => simp [find, eq_comm]
  | cons row rest ih =>
    rcases row with ⟨k', v⟩
    grind [find]

theorem find_upsertRows (rows : List Entry) (key value k : Bytes) :
    find (upsertRows rows key value) k = if k = key then some value else find rows k := by
  unfold upsertRows
  split
  · rename_i hmem
    rw [find_replace]
    simp only [hmem, and_true]
  · rename_i hmem
    exact find_append rows key value k hmem

theorem mem_scan {t : Table} {start : Bytes} {e : Entry} (h : e ∈ t.scan start) :
    e.1.startsWith start ∧ t.get? e.1 = some e.2 := by
  unfold scan range at h
  rw [List.mem_mergeSort, List.mem_filter] at h
  obtain ⟨hmem, hinside⟩ := h
  rw [t.get?_eq_find, Bytes.startsWith_iff]
  refine ⟨?_, OrderedMap.find_of_mem t.distinct hmem⟩
  simp only [Bool.and_eq_true, Bool.not_eq_true', decide_eq_false_iff_not, Option.all_eq_true,
    decide_eq_true_eq] at hinside
  exact hinside

theorem mem_scan_of {t : Table} {start : Bytes} {k v : Bytes} (hstart : k.startsWith start)
    (hget : t.get? k = some v) : (k, v) ∈ t.scan start := by
  rw [t.get?_eq_find] at hget
  have hinside := (Bytes.startsWith_iff k start).1 hstart
  unfold scan range
  rw [List.mem_mergeSort, List.mem_filter]
  refine ⟨OrderedMap.mem_of_find hget, ?_⟩
  simp only [Bool.and_eq_true, Bool.not_eq_true', decide_eq_false_iff_not, Option.all_eq_true,
    decide_eq_true_eq]
  exact hinside

end Table

namespace Backend

def get? (b : Backend) (key : Bytes) : Option Bytes :=
  (b.perform (.get key)).1

theorem perform_get (b : Backend) (key : Bytes) : b.perform (.get key) = (b.get? key, b) := by
  cases b <;> rfl

theorem perform_scan (b : Backend) (start : Bytes) : (b.perform (.scan start)).2 = b := by
  cases b <;> rfl

theorem get?_set (b : Backend) (key value k : Bytes) :
    (b.perform (.set key value)).2.get? k = if k = key then some value else b.get? k := by
  cases b with
  | memory m => exact OrderedMap.find_put m.entries key value k
  | database t =>
    have h := Table.find_upsertRows t.rows key value k
    rw [← Table.get?_eq_find] at h
    exact ((t.upsert key value).get?_eq_find k).trans h

theorem get?_delete (b : Backend) (key k : Bytes) :
    (b.perform (.delete key)).2.get? k = if k = key then none else b.get? k := by
  cases b with
  | memory m => exact OrderedMap.find_filter m.entries key k
  | database t =>
    have h := OrderedMap.find_filter t.rows key k
    rw [← Table.get?_eq_find] at h
    exact ((t.delete key).get?_eq_find k).trans h

theorem mem_scan {b : Backend} {start : Bytes} {e : Entry} (h : e ∈ (b.perform (.scan start)).1) :
    e.1.startsWith start ∧ b.get? e.1 = some e.2 := by
  cases b with
  | memory m => exact OrderedMap.mem_scan h
  | database t => exact Table.mem_scan h

theorem mem_scan_of {b : Backend} {start k v : Bytes} (hstart : k.startsWith start)
    (hget : b.get? k = some v) : (k, v) ∈ (b.perform (.scan start)).1 := by
  cases b with
  | memory m => exact OrderedMap.mem_scan_of hstart hget
  | database t => exact Table.mem_scan_of hstart hget

end Backend

end Store

end CommitReveal
