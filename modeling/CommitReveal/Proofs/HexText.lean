import CommitReveal.FixedBytes

/-! Which texts spell bytes in hexadecimal digits. Reading takes digits of either case, so it takes just those
texts that differ from what is written for the bytes in nothing but the case. -/
namespace CommitReveal.Hex

def alphabet : List Char :=
  ['0', '1', '2', '3', '4', '5', '6', '7', '8', '9', 'a', 'b', 'c', 'd', 'e', 'f', 'A', 'B', 'C', 'D', 'E', 'F']

def marks : List (List Char) := [[], ['0', 'x'], ['0', 'X']]

/-- So many hexadecimal digits of either case. -/
structure IsDigits (count : Nat) (cs : List Char) : Prop where
  length : cs.length = count
  each : ∀ c ∈ cs, c ∈ alphabet

section Digits

variable {c : Char} {cs ds mark : List Char} {bytes : Bytes} {v n : Nat}

theorem lt_of_value? (h : value? c = some v) : c.toNat < 103 := by
  unfold value? at h
  grind

theorem lt_of_toLower (h : v < 16) (hlower : c.toLower = digit v) : c.toNat < 103 := by
  have hall : ∀ i : Fin 16, (digit i.val).toNat < 103 := by decide
  rcases Nat.lt_or_ge c.toNat 103 with hlt | hge
  · exact hlt
  · have hself : c.toLower = c := by
      refine dif_neg fun hupper => ?_
      have hle : c.toNat ≤ 90 := hupper.2
      omega
    rw [← hself, hlower]
    exact hall ⟨v, h⟩

theorem value?_eq_some_iff : value? c = some v ↔ v < 16 ∧ c.toLower = digit v := by
  have hall : ∀ i : Fin 103, ∀ v : Fin 16,
      value? (.ofNat i.val) = some v.val ↔ (Char.ofNat i.val).toLower = digit v.val := by
    decide
  have hiff (hc : c.toNat < 103) (hv : v < 16) : value? c = some v ↔ c.toLower = digit v :=
    c.ofNat_toNat ▸ hall ⟨c.toNat, hc⟩ ⟨v, hv⟩
  constructor
  · intro h
    have hv : v < 16 := by
      unfold value? at h
      grind
    exact ⟨hv, (hiff (lt_of_value? h) hv).1 h⟩
  · rintro ⟨hv, hlower⟩
    exact (hiff (lt_of_toLower hv hlower) hv).2 hlower

theorem mem_alphabet_iff : c ∈ alphabet ↔ (value? c).isSome := by
  have hall : ∀ i : Fin 103, Char.ofNat i.val ∈ alphabet ↔ (value? (.ofNat i.val)).isSome := by decide
  have hsmall : ∀ c ∈ alphabet, c.toNat < 103 := by simp [alphabet]
  have hiff (hc : c.toNat < 103) : c ∈ alphabet ↔ (value? c).isSome := c.ofNat_toNat ▸ hall ⟨c.toNat, hc⟩
  constructor
  · exact fun h => (hiff (hsmall c h)).1 h
  · intro h
    obtain ⟨v, hv⟩ := Option.isSome_iff_exists.1 h
    exact (hiff (lt_of_value? hv)).2 h

theorem length_digits (bytes : Bytes) : (digits bytes).length = 2 * bytes.length := by
  induction bytes with
  | nil => rfl
  | cons b bytes ih =>
    rw [digits, List.length_cons, List.length_cons, ih, List.length_cons]
    omega

theorem ofNat_halves_iff {h l : Nat} (hh : h < 16) (hl : l < 16) {b : UInt8} :
    UInt8.ofNat (16 * h + l) = b ↔ b.toNat / 16 = h ∧ b.toNat % 16 = l := by
  have hb := b.toNat_lt
  rw [← UInt8.toNat_inj, UInt8.toNat_ofNat']
  omega

/-- Digits are read as the bytes that they are written for. -/
theorem decode_eq_some_iff : decode cs = some bytes ↔ cs.map Char.toLower = digits bytes := by
  fun_induction decode cs generalizing bytes with
  | case1 => cases bytes <;> simp [digits]
  | case2 c => cases bytes <;> simp [digits]
  | case3 hi lo rest ih =>
    simp only [Option.bind_eq_bind, Option.bind_eq_some_iff, value?_eq_some_iff, ih, Option.pure_def,
      Option.some.injEq, List.map_cons]
    cases bytes with
    | nil => simp [digits]
    | cons b bytes =>
      have hb := b.toNat_lt
      rw [digits, List.cons.injEq, List.cons.injEq]
      constructor
      · rintro ⟨h, ⟨hh, hhi⟩, l, ⟨hl, hlo⟩, tail, htail, hcons⟩
        obtain ⟨hbyte, rfl⟩ := List.cons.inj hcons
        obtain ⟨rfl, rfl⟩ := (ofNat_halves_iff hh hl).1 hbyte
        exact ⟨hhi, hlo, htail⟩
      · rintro ⟨hhi, hlo, hrest⟩
        have hh : b.toNat / 16 < 16 := by omega
        have hl : b.toNat % 16 < 16 := by omega
        exact ⟨_, ⟨hh, hhi⟩, _, ⟨hl, hlo⟩, bytes, hrest, congrArg (· :: bytes) ((ofNat_halves_iff hh hl).2 ⟨rfl, rfl⟩)⟩

theorem length_of_decode (h : decode cs = some bytes) : cs.length = 2 * bytes.length := by
  rw [← length_digits, ← decode_eq_some_iff.1 h, List.length_map]

theorem mem_alphabet_of_decode (h : decode cs = some bytes) : ∀ c ∈ cs, c ∈ alphabet := by
  fun_induction decode cs generalizing bytes with
  | case1 => exact fun c hc => nomatch hc
  | case2 => cases h
  | case3 hi lo rest ih =>
    simp only [Option.bind_eq_bind, Option.bind_eq_some_iff] at h
    obtain ⟨hv, hhi, lv, hlo, tail, htail, -⟩ := h
    intro c hc
    rcases List.mem_cons.1 hc with rfl | hc
    · exact mem_alphabet_iff.2 (Option.isSome_of_mem hhi)
    rcases List.mem_cons.1 hc with rfl | hc
    · exact mem_alphabet_iff.2 (Option.isSome_of_mem hlo)
    · exact ih htail c hc

theorem exists_decode (hlength : cs.length = 2 * n) (hcs : ∀ c ∈ cs, c ∈ alphabet) :
    ∃ bytes, decode cs = some bytes := by
  fun_induction decode cs generalizing n with
  | case1 => exact ⟨[], rfl⟩
  | case2 c =>
    rw [List.length_singleton] at hlength
    omega
  | case3 hi lo rest ih =>
    obtain ⟨hhi, hlo, hrest⟩ : hi ∈ alphabet ∧ lo ∈ alphabet ∧ ∀ c ∈ rest, c ∈ alphabet := by simpa using hcs
    obtain ⟨h, hh⟩ := Option.isSome_iff_exists.1 (mem_alphabet_iff.1 hhi)
    obtain ⟨l, hl⟩ := Option.isSome_iff_exists.1 (mem_alphabet_iff.1 hlo)
    have hlength' : rest.length = 2 * (n - 1) := by
      rw [List.length_cons, List.length_cons] at hlength
      omega
    obtain ⟨bytes, hbytes⟩ := ih hlength' hrest
    rw [hh, hl, hbytes]
    exact ⟨_, rfl⟩

theorem exists_decode_iff :
    (∃ bytes, decode cs = some bytes ∧ bytes.length = n) ↔ IsDigits (2 * n) cs := by
  constructor
  · rintro ⟨bytes, hbytes, rfl⟩
    exact ⟨length_of_decode hbytes, mem_alphabet_of_decode hbytes⟩
  · rintro ⟨hlength, hcs⟩
    obtain ⟨bytes, hbytes⟩ := exists_decode hlength hcs
    exact ⟨bytes, hbytes, Nat.eq_of_mul_eq_mul_left Nat.two_pos ((length_of_decode hbytes).symm.trans hlength)⟩

theorem dropEitherMark_append (hmark : mark ∈ marks) (hds : ∀ c ∈ ds, c ∈ alphabet) :
    dropEitherMark (mark ++ ds) = ds := by
  rcases List.mem_cons.1 hmark with rfl | hmark
  · rw [List.nil_append]
    unfold dropEitherMark
    split
    · exact absurd (hds 'x' (by simp)) (by decide)
    · exact absurd (hds 'X' (by simp)) (by decide)
    · rfl
  rcases List.mem_cons.1 hmark with rfl | hmark
  · rfl
  · obtain rfl := List.mem_singleton.1 hmark
    rfl

theorem exists_mark (cs : List Char) : ∃ mark ∈ marks, cs = mark ++ dropEitherMark cs := by
  unfold dropEitherMark
  split
  · exact ⟨['0', 'x'], by decide, rfl⟩
  · exact ⟨['0', 'X'], by decide, rfl⟩
  · exact ⟨[], by decide, rfl⟩

theorem decodeMarked_eq_some_iff : decodeMarked cs = some bytes ↔
    ∃ mark ∈ marks, ∃ ds, cs = mark ++ ds ∧ ds.map Char.toLower = digits bytes := by
  unfold decodeMarked
  constructor
  · intro h
    obtain ⟨mark, hmark, hcs⟩ := exists_mark cs
    exact ⟨mark, hmark, _, hcs, decode_eq_some_iff.1 h⟩
  · rintro ⟨mark, hmark, ds, rfl, hds⟩
    have hdecode := decode_eq_some_iff.2 hds
    rwa [dropEitherMark_append hmark (mem_alphabet_of_decode hdecode)]

end Digits

end CommitReveal.Hex
