import CommitReveal.Scan.EventSync

/-! Windows that follow one another, and what their record says of them. A window ends above its first
block and at most at the head it was chosen by, so the place behind it is a block number again. -/
namespace CommitReveal

namespace ScanWindow

variable {head cursor b : Word} {w : ScanWindow} {ws : List ScanWindow} {start next : Word}

def covers (w : ScanWindow) (b : Word) : Bool :=
  w.first ≤ b && b ≤ w.last

theorem covers_iff : w.covers b ↔ w.first.toNat ≤ b.toNat ∧ b.toNat ≤ w.last.toNat := by
  simp [covers, UInt64.le_iff_toNat_le]

theorem reach_le (lag : Word) (hlag : 0 < lag.toNat) :
    0 < (reach lag).1.toNat ∧ (reach lag).1.toNat ≤ lag.toNat := by
  unfold reach
  simp only [UInt64.le_iff_toNat_le]
  split
  · exact ⟨by decide, by assumption⟩
  · split
    · exact ⟨by decide, by assumption⟩
    · split
      · exact ⟨by decide, by assumption⟩
      · exact ⟨by decide, hlag⟩

/-- A window begins at the cursor and ends above it, at most at the head. None is out of reach. -/
theorem select_spec (head cursor : Word) : ∃ window, select head cursor = .ok window ∧
    ∀ w, window = some w → w.first = cursor ∧ cursor.toNat < w.last.toNat ∧
      w.last.toNat ≤ head.toNat := by
  unfold select
  split
  · exact ⟨none, rfl, fun w hw => nomatch hw⟩
  · rename_i hlt
    rw [UInt64.le_iff_toNat_le] at hlt
    have hlag : (head - cursor).toNat = head.toNat - cursor.toNat :=
      UInt64.toNat_sub_of_le head cursor (by rw [UInt64.le_iff_toNat_le]; omega)
    obtain ⟨hpos, hle⟩ := reach_le (head - cursor) (by omega)
    have hhead := head.toNat_lt
    rcases hreach : reach (head - cursor) with ⟨size, mode⟩
    simp only [hreach] at hpos hle
    cases hadd : Word.add? cursor size with
    | none =>
      have hbig := Word.add?_eq_none_iff.1 hadd
      have hsize : UInt64.size = 2 ^ 64 := rfl
      omega
    | some last =>
      have hlast := Word.add?_eq_some_iff.1 hadd
      simp only [hadd]
      refine ⟨_, rfl, fun w hw => ?_⟩
      obtain rfl := Option.some.inj hw
      exact ⟨rfl, by dsimp only; omega, by dsimp only; omega⟩

theorem of_select (h : select head cursor = .ok (some w)) :
    w.first = cursor ∧ cursor.toNat < w.last.toNat ∧ w.last.toNat ≤ head.toNat := by
  obtain ⟨window, hwindow, hspec⟩ := select_spec head cursor
  exact hspec w (Except.ok.inj (hwindow.symm.trans h))

/-- Each window begins where the one before it ends, the first at `start`; the last ends at the other
place. -/
inductive Chained : Word → List ScanWindow → Word → Prop
  | nil (start : Word) : Chained start [] start
  | cons {w : ScanWindow} {ws : List ScanWindow} {next cursor : Word}
    (behind : Word.add? w.last 1 = some next) (rest : Chained next ws cursor) : Chained w.first (w :: ws) cursor

theorem Chained.snoc (hc : Chained start ws w.first) (behind : Word.add? w.last 1 = some next) :
    Chained start (ws ++ [w]) next := by
  generalize hcursor : w.first = cursor at hc
  induction hc with
  | nil start =>
    subst hcursor
    exact .cons behind (.nil next)
  | cons behind' _ ih => exact .cons behind' (ih hcursor)

/-- The windows of a chain share no block and leave none out. -/
theorem Chained.countP_covers (hc : Chained start ws cursor)
    (hws : ∀ w ∈ ws, w.first.toNat ≤ w.last.toNat) :
    start.toNat ≤ cursor.toNat ∧ ∀ b : Word,
      ws.countP (·.covers b) = if start ≤ b ∧ b < cursor then 1 else 0 := by
  induction hc with
  | nil start =>
    refine ⟨Nat.le_refl _, fun b => ?_⟩
    simp only [List.countP_nil, UInt64.le_iff_toNat_le, UInt64.lt_iff_toNat_lt]
    rw [if_neg (by omega)]
  | @cons w ws next cursor behind _ ih =>
    obtain ⟨hnext, hcount⟩ := ih fun w' hw' => hws w' (List.mem_cons_of_mem w hw')
    have hw := hws w List.mem_cons_self
    have hbehind : w.last.toNat + 1 = next.toNat := Word.add?_eq_some_iff.1 behind
    refine ⟨by omega, fun b => ?_⟩
    rw [List.countP_cons, hcount]
    simp only [covers_iff, UInt64.le_iff_toNat_le, UInt64.lt_iff_toNat_lt]
    split <;> split <;> split <;> omega

theorem Chained.length_le (hc : Chained start ws cursor) (hws : ∀ w ∈ ws, w.first.toNat < w.last.toNat) :
    start.toNat + 2 * ws.length ≤ cursor.toNat := by
  induction hc with
  | nil start => simp
  | @cons w ws next cursor behind _ ih =>
    have hrest := ih fun w' hw' => hws w' (List.mem_cons_of_mem w hw')
    have hw := hws w List.mem_cons_self
    have hbehind : w.last.toNat + 1 = next.toNat := Word.add?_eq_some_iff.1 behind
    rw [List.length_cons]
    omega

end ScanWindow

end CommitReveal
