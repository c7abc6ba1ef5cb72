import CommitReveal.Scan.Window
import Mathlib.Data.Set.Card

/-! Which blocks windows in order leave out. Between two neighbours lies a run of such blocks unless one starts right
behind the other, and there are no other runs: so what lies between neighbours tells everything about all blocks. -/
namespace CommitReveal.ScanWindow

section Skipped

variable {ws : List ScanWindow} {v w : ScanWindow} {n a b : Nat} {x y : Word}

/-- Windows one after another: none is without a block, each ends before the last block number, and each starts after
the end of the one before it. -/
structure Ordered (ws : List ScanWindow) : Prop where
  nonempty : ∀ w ∈ ws, w.first.toNat ≤ w.last.toNat
  bounded : ∀ w ∈ ws, w.last.toNat < UInt64.size - 1
  ascending : ws.IsChain fun v w => v.last.toNat < w.first.toNat

/-- A block from the start of the first window to the end of the last one. -/
def Spanned (ws : List ScanWindow) (n : Nat) : Prop :=
  (∃ v, ws.head? = some v ∧ v.first.toNat ≤ n) ∧ ∃ w, ws.getLast? = some w ∧ n ≤ w.last.toNat

/-- A block that some window has. -/
def Covered (ws : List ScanWindow) (n : Nat) : Prop :=
  ∃ w ∈ ws, w.first.toNat ≤ n ∧ n ≤ w.last.toNat

def Skipped (ws : List ScanWindow) (n : Nat) : Prop :=
  Spanned ws n ∧ ¬Covered ws n

/-- A run of skipped blocks, from `a` to `b`, that is part of no longer one. -/
structure SkippedRun (ws : List ScanWindow) (a b : Nat) : Prop where
  nonempty : a ≤ b
  skipped : ∀ n, a ≤ n → n ≤ b → Skipped ws n
  maximal : ∀ a' b', a' ≤ a → b ≤ b' → (∀ n, a' ≤ n → n ≤ b' → Skipped ws n) → a' = a ∧ b' = b

/-- The ends of what lies between two windows, unless one starts right behind the other. -/
def hole (v w : ScanWindow) : Option (Word × Word) :=
  if v.last.toNat + 1 = w.first.toNat then none else some (v.last, w.first)

/-- The holes between neighbours. -/
def holes : List ScanWindow → List (Word × Word)
  | v :: w :: ws => (hole v w).toList ++ holes (w :: ws)
  | _ => []

theorem spanned_cons_iff : Spanned (v :: ws) n ↔
    v.first.toNat ≤ n ∧ ∃ w, (v :: ws).getLast? = some w ∧ n ≤ w.last.toNat := by
  simp [Spanned]

theorem hole_eq_some_iff : hole v w = some (x, y) ↔ v.last.toNat + 1 ≠ w.first.toNat ∧ v.last = x ∧ w.first = y := by
  unfold hole
  split <;> simp_all

theorem holes_concat (ws : List ScanWindow) (w : ScanWindow) :
    holes (ws ++ [w]) = holes ws ++ (ws.getLast?.bind (hole · w)).toList := by
  induction ws with
  | nil => rfl
  | cons v ws ih =>
    cases ws with
    | nil => simp [holes]
    | cons u ws =>
      simp only [List.cons_append, holes, List.getLast?_cons_cons] at ih ⊢
      rw [ih, List.append_assoc]

theorem length_holes_le (ws : List ScanWindow) : (holes ws).length ≤ ws.length := by
  induction ws with
  | nil => exact Nat.le_refl 0
  | cons v ws ih =>
    cases ws with
    | nil => exact Nat.zero_le 1
    | cons w ws =>
      have hone : (hole v w).toList.length ≤ 1 := by cases hole v w <;> simp
      rw [holes, List.length_append, List.length_cons]
      omega

theorem Ordered.tail (h : Ordered (v :: ws)) : Ordered ws where
  nonempty w hw := h.nonempty w (List.mem_cons_of_mem v hw)
  bounded w hw := h.bounded w (List.mem_cons_of_mem v hw)
  ascending := h.ascending.tail

theorem Ordered.lt_first (h : Ordered (v :: ws)) (hw : w ∈ ws) : v.last.toNat < w.first.toNat := by
  induction ws generalizing v with
  | nil => cases hw
  | cons u ws ih =>
    have hnext : v.last.toNat < u.first.toNat := (List.isChain_cons_cons.1 h.ascending).1
    rcases List.mem_cons.1 hw with rfl | hw
    · exact hnext
    · have hu := h.nonempty u (List.mem_cons_of_mem v List.mem_cons_self)
      have hrest := ih h.tail hw
      omega

/-- Each window has a block of its own, so there are no more windows than blocks. -/
theorem Ordered.add_length_le (h : Ordered ws) (hn : n < UInt64.size) (hfirst : ∀ w ∈ ws, n ≤ w.first.toNat) :
    n + ws.length < UInt64.size := by
  induction ws generalizing n with
  | nil => exact hn
  | cons v ws ih =>
    have hv := h.nonempty v List.mem_cons_self
    have hbound := h.bounded v List.mem_cons_self
    have hstart := hfirst v List.mem_cons_self
    have hrest := ih (n := n + 1) h.tail (by omega) fun w hw => by
      have hlt := h.lt_first hw
      omega
    rw [List.length_cons]
    omega

theorem Ordered.length_lt (h : Ordered ws) : ws.length < UInt64.size := by
  have hle := h.add_length_le (n := 0) (by decide) fun w _ => Nat.zero_le w.first.toNat
  omega

theorem Ordered.first_le (h : Ordered (v :: ws)) (hw : w ∈ v :: ws) : v.first.toNat ≤ w.first.toNat := by
  rcases List.mem_cons.1 hw with rfl | hw
  · exact Nat.le_refl _
  · have hv := h.nonempty v List.mem_cons_self
    have hlt := h.lt_first hw
    omega

theorem skipped_cons_iff (h : Ordered (v :: w :: ws)) :
    Skipped (v :: w :: ws) n ↔ v.last.toNat < n ∧ n < w.first.toNat ∨ Skipped (w :: ws) n := by
  have hv := h.nonempty v List.mem_cons_self
  have hvw := h.lt_first List.mem_cons_self
  rw [Skipped, Skipped, spanned_cons_iff, spanned_cons_iff, List.getLast?_cons_cons]
  constructor
  · rintro ⟨⟨hbegin, hend⟩, huncovered⟩
    have hlast : v.last.toNat < n := Nat.lt_of_not_le fun hle => huncovered ⟨v, List.mem_cons_self, hbegin, hle⟩
    rcases Nat.lt_or_ge n w.first.toNat with hlt | hge
    · exact .inl ⟨hlast, hlt⟩
    · exact .inr ⟨⟨hge, hend⟩,
        fun ⟨u, hu, hcovers⟩ => huncovered ⟨u, List.mem_cons_of_mem v hu, hcovers⟩⟩
  · rintro (⟨hlast, hfirst⟩ | ⟨⟨hbegin, hend⟩, huncovered⟩)
    · -- the last window ends behind `n` and all but `v` start there, as `w` does
      obtain ⟨u, hu⟩ : ∃ u, (w :: ws).getLast? = some u := ⟨_, List.getLast?_eq_some_getLast (List.cons_ne_nil w ws)⟩
      have hmem := List.mem_of_getLast? hu
      have hwu := h.tail.first_le hmem
      have hnonempty := h.tail.nonempty u hmem
      refine ⟨⟨by omega, u, hu, by omega⟩, ?_⟩
      rintro ⟨u', hu', hfrom, hto⟩
      rcases List.mem_cons.1 hu' with rfl | hu'
      · omega
      · have hwu' := h.tail.first_le hu'
        omega
    · refine ⟨⟨by omega, hend⟩, ?_⟩
      rintro ⟨u, hu, hfrom, hto⟩
      rcases List.mem_cons.1 hu with rfl | hu
      · omega
      · exact huncovered ⟨u, hu, hfrom, hto⟩

theorem skipped_iff (h : Ordered ws) :
    Skipped ws n ↔ ∃ x y, (x, y) ∈ holes ws ∧ x.toNat < n ∧ n < y.toNat := by
  induction ws with
  | nil => simp [Skipped, Spanned, holes]
  | cons v ws ih =>
    cases ws with
    | nil => simp [Skipped, Spanned, Covered, holes]
    | cons w ws =>
      simp only [skipped_cons_iff h, ih h.tail, holes, List.mem_append, Option.mem_toList, hole_eq_some_iff]
      constructor
      · rintro (⟨hlast, hfirst⟩ | ⟨x, y, hxy, hn⟩)
        · exact ⟨_, _, .inl ⟨by omega, rfl, rfl⟩, hlast, hfirst⟩
        · exact ⟨x, y, .inr hxy, hn⟩
      · rintro ⟨x, y, ⟨-, rfl, rfl⟩ | hxy, hn⟩
        · exact .inl hn
        · exact .inr ⟨x, y, hxy, hn⟩

theorem of_mem_holes (h : Ordered ws) (hxy : (x, y) ∈ holes ws) :
    Covered ws x.toNat ∧ Covered ws y.toNat ∧ x.toNat + 1 < y.toNat := by
  induction ws with
  | nil => cases hxy
  | cons v ws ih =>
    cases ws with
    | nil => cases hxy
    | cons w ws =>
      have hv := h.nonempty v List.mem_cons_self
      have hw := h.tail.nonempty w List.mem_cons_self
      have hvw := h.lt_first List.mem_cons_self
      simp only [holes, List.mem_append, Option.mem_toList, hole_eq_some_iff] at hxy
      rcases hxy with ⟨hne, rfl, rfl⟩ | hxy
      · exact ⟨⟨v, List.mem_cons_self, hv, Nat.le_refl _⟩,
          ⟨w, List.mem_cons_of_mem v List.mem_cons_self, Nat.le_refl _, hw⟩, by omega⟩
      · obtain ⟨⟨u, hu, hx⟩, ⟨u', hu', hy⟩, hlt⟩ := ih h.tail hxy
        exact ⟨⟨u, List.mem_cons_of_mem v hu, hx⟩, ⟨u', List.mem_cons_of_mem v hu', hy⟩, hlt⟩

theorem pairwise_holes (h : Ordered ws) : (holes ws).Pairwise fun i j => i.2.toNat ≤ j.1.toNat := by
  induction ws with
  | nil => exact .nil
  | cons v ws ih =>
    cases ws with
    | nil => exact .nil
    | cons w ws =>
      rw [holes, List.pairwise_append]
      refine ⟨by cases hole v w <;> simp, ih h.tail, fun i hi j hj => ?_⟩
      obtain ⟨-, -, hfirst⟩ := hole_eq_some_iff.1 (Option.mem_toList.1 hi)
      obtain ⟨⟨u, hu, hle, -⟩, -⟩ := of_mem_holes h.tail hj
      have hwu := h.tail.first_le hu
      rw [← hfirst]
      exact Nat.le_trans hwu hle

/-- The runs of skipped blocks are the holes. -/
theorem skippedRun_iff (h : Ordered ws) :
    SkippedRun ws a b ↔ ∃ x y, (x, y) ∈ holes ws ∧ x.toNat + 1 = a ∧ b + 1 = y.toNat := by
  constructor
  · intro hrun
    -- the first block lies in a hole, and the run can neither leave it nor be shorter
    obtain ⟨x, y, hxy, hx, hy⟩ := (skipped_iff h).1 (hrun.skipped a (Nat.le_refl a) hrun.nonempty)
    obtain ⟨-, hcovered, -⟩ := of_mem_holes h hxy
    have hb : ¬y.toNat ≤ b := fun hle => (hrun.skipped y.toNat (Nat.le_of_lt hy) hle).2 hcovered
    obtain ⟨ha, hb⟩ := hrun.maximal (x.toNat + 1) (y.toNat - 1) (by omega) (by omega)
      fun n hn hn' => (skipped_iff h).2 ⟨x, y, hxy, by omega, by omega⟩
    exact ⟨x, y, hxy, ha, by omega⟩
  · rintro ⟨x, y, hxy, rfl, hb⟩
    obtain ⟨hx, hy, hlt⟩ := of_mem_holes h hxy
    refine ⟨by omega, fun n hn hn' => (skipped_iff h).2 ⟨x, y, hxy, by omega, by omega⟩, fun a' b' ha' hb' hall => ?_⟩
    have hstart : ¬a' ≤ x.toNat := fun hle => (hall x.toNat hle (by omega)).2 hx
    have hend : ¬y.toNat ≤ b' := fun hle => (hall y.toNat (by omega) hle).2 hy
    omega

theorem mem_holes_iff (h : Ordered ws) :
    (x, y) ∈ holes ws ↔ ∃ a b, SkippedRun ws a b ∧ x.toNat + 1 = a ∧ b + 1 = y.toNat := by
  constructor
  · intro hxy
    obtain ⟨-, -, hlt⟩ := of_mem_holes h hxy
    have hend : y.toNat - 1 + 1 = y.toNat := by omega
    exact ⟨_, _, (skippedRun_iff h).2 ⟨x, y, hxy, rfl, hend⟩, rfl, hend⟩
  · rintro ⟨_, b, hrun, rfl, hy⟩
    obtain ⟨x', y', hxy, hx', hy'⟩ := (skippedRun_iff h).1 hrun
    obtain rfl : x' = x := UInt64.toNat_inj.1 (Nat.succ.inj hx')
    obtain rfl : y' = y := UInt64.toNat_inj.1 (hy'.symm.trans hy)
    exact hxy

theorem encard_skippedRun (h : Ordered ws) :
    {run : Nat × Nat | SkippedRun ws run.1 run.2}.encard = (holes ws).length := by
  have hruns : {run : Nat × Nat | SkippedRun ws run.1 run.2} =
      ((holes ws).map fun i => (i.1.toNat + 1, i.2.toNat - 1)).toFinset := by
    ext ⟨a, b⟩
    simp only [Set.mem_ofPred_eq, skippedRun_iff h, List.coe_toFinset, List.mem_map, Prod.mk.injEq]
    constructor
    · rintro ⟨x, y, hxy, ha, hb⟩
      exact ⟨(x, y), hxy, ha, by dsimp only; omega⟩
    · rintro ⟨⟨x, y⟩, hxy, ha, hb⟩
      obtain ⟨-, -, hlt⟩ := of_mem_holes h hxy
      exact ⟨x, y, hxy, ha, by dsimp only at hb; omega⟩
  have hnodup : ((holes ws).map fun i => (i.1.toNat + 1, i.2.toNat - 1)).Nodup := by
    refine List.pairwise_map.2 ((pairwise_holes h).imp_of_mem fun {i j} hi _ hle heq => ?_)
    obtain ⟨-, -, hlt⟩ := of_mem_holes h hi
    have hstart := congrArg Prod.fst heq
    dsimp only at hstart
    omega
  rw [hruns, Set.encard_coe_eq_coe_finsetCard, List.toFinset_card_of_nodup hnodup, List.length_map]

theorem holes_eq_nil_iff (h : Ordered ws) : holes ws = [] ↔ ∀ n, Spanned ws n → Covered ws n := by
  constructor
  · intro hnil n hspanned
    by_contra huncovered
    obtain ⟨x, y, hxy, -⟩ := (skipped_iff h).1 ⟨hspanned, huncovered⟩
    rw [hnil] at hxy
    cases hxy
  · intro hall
    refine List.eq_nil_iff_forall_not_mem.2 fun ⟨x, y⟩ hxy => ?_
    obtain ⟨-, -, hlt⟩ := of_mem_holes h hxy
    obtain ⟨hspanned, huncovered⟩ := (skipped_iff h).2 ⟨x, y, hxy, Nat.lt_succ_self x.toNat, hlt⟩
    exact huncovered (hall _ hspanned)

theorem eq_or_le_of_getLast? (h : Ordered ws) {i j : Word × Word} (hj : (holes ws).getLast? = some j)
    (hi : i ∈ holes ws) : i = j ∨ i.2.toNat ≤ j.1.toNat := by
  obtain ⟨js, hjs⟩ := List.getLast?_eq_some_iff.1 hj
  have hpairwise := pairwise_holes h
  rw [hjs] at hi hpairwise
  rcases List.mem_append.1 hi with hi | hi
  · exact .inr ((List.pairwise_append.1 hpairwise).2.2 i hi j List.mem_cons_self)
  · exact .inl (List.mem_singleton.1 hi)

theorem getLast?_holes_eq_some_iff (h : Ordered ws) : (holes ws).getLast? = some (x, y) ↔
    ∃ a b, SkippedRun ws a b ∧ (∀ a' b', SkippedRun ws a' b' → b' ≤ b) ∧ x.toNat + 1 = a ∧ b + 1 = y.toNat := by
  constructor
  · intro hlast
    obtain ⟨a, b, hrun, ha, hb⟩ := (mem_holes_iff h).1 (List.mem_of_getLast? hlast)
    refine ⟨a, b, hrun, fun a' b' hrun' => ?_, ha, hb⟩
    obtain ⟨x', y', hxy', -, hb'⟩ := (skippedRun_iff h).1 hrun'
    have hnonempty := hrun.nonempty
    rcases eq_or_le_of_getLast? h hlast hxy' with heq | hle
    · cases heq
      omega
    · dsimp only at hle
      omega
  · rintro ⟨a, b, hrun, hlatest, ha, hb⟩
    have hxy := (mem_holes_iff h).2 ⟨a, b, hrun, ha, hb⟩
    obtain ⟨⟨x', y'⟩, hlast⟩ : ∃ j, (holes ws).getLast? = some j :=
      ⟨_, List.getLast?_eq_some_getLast (List.ne_nil_of_mem hxy)⟩
    obtain ⟨a', b', hrun', ha', hb'⟩ := (mem_holes_iff h).1 (List.mem_of_getLast? hlast)
    have hle := hlatest a' b' hrun'
    have hnonempty := hrun'.nonempty
    rcases eq_or_le_of_getLast? h hlast hxy with heq | hbefore
    · rw [hlast, heq]
    · dsimp only at hbefore
      omega

end Skipped

end CommitReveal.ScanWindow
