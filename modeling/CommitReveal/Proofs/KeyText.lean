import CommitReveal.Crypto.KeyText
import CommitReveal.Net.SocketAddress
import CommitReveal.Proofs.HexText

/-! Which texts are read as signing keys: 64 hexadecimal digits of either case behind one mark or none, if the group
has the number that they write. The reading works on bytes; of texts in digits and marks it sees the characters. -/
namespace CommitReveal

theorem Bytes.toNatBE_eq_foldl (bytes : Bytes) : bytes.toNatBE = bytes.foldl (fun n b => 256 * n + b.toNat) 0 := by
  have hfoldr (bs : Bytes) : Bytes.toNatLE bs = bs.foldr (fun b n => 256 * n + b.toNat) 0 := by
    induction bs with
    | nil => rfl
    | cons b bs ih => rw [toNatLE, ih, List.foldr_cons, Nat.add_comm]
  rw [toNatBE, hfoldr, List.foldr_reverse]

theorem Hex.valueOf_of_decode {cs : List Char} {bytes : Bytes} (h : decode cs = some bytes) :
    Net.valueOf 16 cs = bytes.toNatBE := by
  have hfoldl (start : Nat) : cs.foldl (fun n c => 16 * n + (value? c).getD 0) start =
      bytes.foldl (fun n b => 256 * n + b.toNat) start := by
    fun_induction decode cs generalizing bytes start with
    | case1 => cases h; rfl
    | case2 => cases h
    | case3 hi lo rest ih =>
      simp only [Option.bind_eq_bind, Option.bind_eq_some_iff, Option.pure_def, Option.some.injEq] at h
      obtain ⟨v, hhi, w, hlo, tail, htail, rfl⟩ := h
      have hv := (value?_eq_some_iff.1 hhi).1
      have hw := (value?_eq_some_iff.1 hlo).1
      have hbyte : 16 * (16 * start + v) + w = 256 * start + (UInt8.ofNat (16 * v + w)).toNat := by
        rw [UInt8.toNat_ofNat']
        omega
      rw [List.foldl_cons, List.foldl_cons, List.foldl_cons, hhi, hlo, Option.getD_some, Option.getD_some, hbyte,
        ih htail]
  rw [Bytes.toNatBE_eq_foldl]
  exact hfoldl 0

namespace Secp256k1

section Bytewise

variable {text : String} {cs : List Char}

/-- A text as the reading of keys sees it: each byte as the character of that number. -/
def bytewise (text : String) : List Char :=
  (Bytes.ofText text).map fun b => Char.ofNat b.toNat

theorem toNat_ofNat_byte (b : UInt8) : (Char.ofNat b.toNat).toNat = b.toNat := by
  have hb := b.toNat_lt
  have hvalid : b.toNat.isValidChar := .inl (by omega)
  rw [Char.ofNat, dif_pos hvalid]
  rfl

theorem bytewise_inj {text' : String} (h : bytewise text = bytewise text') : text = text' := by
  have hbyte (b b' : UInt8) (hb : Char.ofNat b.toNat = Char.ofNat b'.toNat) : b = b' := by
    rw [← UInt8.toNat_inj, ← toNat_ofNat_byte b, hb, toNat_ofNat_byte]
  have hbytes : Bytes.ofText text = Bytes.ofText text' := (List.map_inj_right hbyte).1 h
  exact String.toByteArray_inj.1 (ByteArray.ext (Array.toList_inj.1 hbytes))

theorem bytewise_ofList (hcs : ∀ c ∈ cs, c.toNat < 128) : bytewise (.ofList cs) = cs := by
  have hbytes : (cs.utf8Encode).data.toList = cs.map fun c => c.val.toUInt8 := by
    induction cs with
    | nil => rfl
    | cons c cs ih =>
      have hsize : c.utf8Size = 1 := by
        rw [Char.utf8Size_eq_one_iff, UInt32.le_iff_toNat_le]
        exact Nat.le_of_lt_succ (hcs c List.mem_cons_self)
      rw [List.utf8Encode_cons, List.utf8Encode_singleton, String.utf8EncodeChar_eq_singleton hsize,
        ByteArray.data_append, Array.toList_append, ih fun d hd => hcs d (List.mem_cons_of_mem _ hd)]
      rfl
  have hchar : ∀ c ∈ cs, Char.ofNat c.val.toUInt8.toNat = c := by
    intro c hc
    have hlow : c.val.toUInt8.toNat = c.toNat := Nat.mod_eq_of_lt (Nat.lt_trans (hcs c hc) (by decide))
    rw [hlow, Char.ofNat_toNat]
  rw [bytewise, Bytes.ofText, String.toUTF8_eq_toByteArray, String.toByteArray_ofList, hbytes, List.map_map]
  exact (List.map_congr_left hchar).trans (List.map_id _)

theorem bytewise_eq_iff (hcs : ∀ c ∈ cs, c.toNat < 128) : bytewise text = cs ↔ text.toList = cs := by
  constructor
  · intro h
    rw [bytewise_inj (h.trans (bytewise_ofList hcs).symm), String.toList_ofList]
  · rintro rfl
    rw [← bytewise_ofList hcs, String.ofList_toList]

end Bytewise

section Keys

variable {text : String} {key : SigningKey} {cs ds mark : List Char} {v : Nat}

theorem ofNat?_eq_some_iff : SigningKey.ofNat? v = some key ↔ v = key.secret := by
  constructor
  · intro h
    unfold SigningKey.ofNat? at h
    split at h <;> cases h
    rfl
  · rintro rfl
    exact dif_pos ⟨key.pos, key.lt⟩

theorem ofNat?_eq_none_iff : SigningKey.ofNat? v = none ↔ ¬(0 < v ∧ v < n) :=
  dite_eq_right_iff.trans (by simp)

theorem lt_of_mem_alphabet : ∀ c ∈ Hex.alphabet, c.toNat < 128 := by simp [Hex.alphabet]

theorem lt_of_mem_mark : ∀ mark ∈ Hex.marks, ∀ c ∈ mark, c.toNat < 128 := by simp [Hex.marks]

theorem ascii_of_digits (hds : Hex.IsDigits 64 ds) (hmark : mark ∈ Hex.marks) : ∀ c ∈ mark ++ ds, c.toNat < 128 := by
  intro c hc
  rcases List.mem_append.1 hc with hc | hc
  · exact lt_of_mem_mark mark hmark c hc
  · exact lt_of_mem_alphabet c (hds.each c hc)

theorem strayChar?_of_digits (hds : ∀ c ∈ ds, c ∈ Hex.alphabet) : strayChar? ds = none := by
  refine List.find?_eq_none.2 fun c hc => ?_
  have hdigit := Hex.mem_alphabet_iff.1 (hds c.1 (List.fst_mem_of_mem_zipIdx hc))
  rw [Option.isNone_eq_false_iff.2 hdigit]
  decide

def readDigits (cs : List Char) : Except KeyFault SigningKey :=
  if cs.length % 2 = 1 then .error .oddDigits
  else
    match strayChar? cs with
    | some (c, offset) => .error (.character c offset)
    | none =>
      match (Hex.decode cs).bind (FixedBytes.ofBytes? 32) with
      | none => .error .length
      | some number =>
        match SigningKey.ofNat? number.toNat with
        | none => .error .outOfGroup
        | some key => .ok key

theorem ofText_eq (text : String) : SigningKey.ofText text = readDigits (Hex.dropEitherMark (bytewise text)) :=
  rfl

theorem readDigits_of_digits (hds : Hex.IsDigits 64 ds) :
    readDigits ds = (SigningKey.ofNat? (Net.valueOf 16 ds)).elim (.error .outOfGroup) .ok := by
  obtain ⟨bytes, hdecode, hbytes⟩ := Hex.exists_decode_iff (n := 32) |>.2 hds
  have hnumber : (Hex.decode ds).bind (FixedBytes.ofBytes? 32) = some ⟨bytes, hbytes⟩ := by
    rw [hdecode, Option.bind_some, FixedBytes.ofBytes?_eq_some_iff]
  have hvalue : (⟨bytes, hbytes⟩ : Hash).toNat = Net.valueOf 16 ds := (Hex.valueOf_of_decode hdecode).symm
  simp only [readDigits, hds.length, strayChar?_of_digits hds.each, hnumber, hvalue]
  cases SigningKey.ofNat? (Net.valueOf 16 ds) <;> rfl

theorem isDigits_of_readDigits (h : readDigits ds = .ok key) : Hex.IsDigits 64 ds := by
  unfold readDigits at h
  split at h
  · cases h
  split at h
  · cases h
  split at h
  · cases h
  next number hnumber =>
    obtain ⟨bytes, hdecode, hbytes⟩ := Option.bind_eq_some_iff.1 hnumber
    have hlength : bytes.length = 32 := FixedBytes.ofBytes?_eq_some_iff.1 hbytes ▸ number.length_bytes
    exact Hex.exists_decode_iff.1 ⟨bytes, hdecode, hlength⟩

theorem ofText_of_digits (hds : Hex.IsDigits 64 ds) (hmark : mark ∈ Hex.marks) (h : text.toList = mark ++ ds) :
    SigningKey.ofText text = (SigningKey.ofNat? (Net.valueOf 16 ds)).elim (.error .outOfGroup) .ok := by
  rw [ofText_eq, (bytewise_eq_iff (ascii_of_digits hds hmark)).2 h, Hex.dropEitherMark_append hmark hds.each,
    readDigits_of_digits hds]

theorem ofText_eq_ok_iff : SigningKey.ofText text = .ok key ↔
    ∃ mark ∈ Hex.marks, ∃ ds, text.toList = mark ++ ds ∧ Hex.IsDigits 64 ds ∧ Net.valueOf 16 ds = key.secret := by
  constructor
  · intro h
    have hds := isDigits_of_readDigits (ofText_eq text ▸ h)
    obtain ⟨mark, hmark, htext⟩ := Hex.exists_mark (bytewise text)
    have htext' := (bytewise_eq_iff (ascii_of_digits hds hmark)).1 htext
    refine ⟨mark, hmark, _, htext', hds, ofNat?_eq_some_iff.1 ?_⟩
    rw [ofText_of_digits hds hmark htext'] at h
    cases hkey : SigningKey.ofNat? (Net.valueOf 16 (Hex.dropEitherMark (bytewise text))) with
    | none => rw [hkey] at h; cases h
    | some key' => rw [hkey] at h; cases h; rfl
  · rintro ⟨mark, hmark, ds, htext, hds, hvalue⟩
    rw [ofText_of_digits hds hmark htext, ofNat?_eq_some_iff.2 hvalue]
    rfl

/-- Just the digits of 32 bytes behind one mark or none are read, if the group has their number. -/
theorem exists_ofText_iff : (∃ key, SigningKey.ofText text = .ok key) ↔
    ∃ mark ∈ Hex.marks, ∃ ds, text.toList = mark ++ ds ∧ Hex.IsDigits 64 ds ∧
      0 < Net.valueOf 16 ds ∧ Net.valueOf 16 ds < n := by
  constructor
  · rintro ⟨key, hkey⟩
    obtain ⟨mark, hmark, ds, htext, hds, hvalue⟩ := ofText_eq_ok_iff.1 hkey
    exact ⟨mark, hmark, ds, htext, hds, hvalue ▸ key.pos, hvalue ▸ key.lt⟩
  · rintro ⟨mark, hmark, ds, htext, hds, hpos, hlt⟩
    exact ⟨⟨_, hpos, hlt⟩, ofText_eq_ok_iff.2 ⟨mark, hmark, ds, htext, hds, rfl⟩⟩

theorem ofText_doubled (hcs : ∀ c ∈ cs, c.toNat < 128) (heven : cs.length % 2 = 0)
    (h : text.toList = ['0', 'x'] ++ (['0', 'x'] ++ cs)) : SigningKey.ofText text = .error (.character 'x' 1) := by
  have hascii : ∀ c ∈ ['0', 'x'] ++ (['0', 'x'] ++ cs), c.toNat < 128 := by
    intro c hc
    simp only [List.mem_append, ← or_assoc, or_self] at hc
    rcases hc with hc | hc
    · exact lt_of_mem_mark _ (by decide) c hc
    · exact hcs c hc
  have hlength : (['0', 'x'] ++ cs).length % 2 = 0 := by
    rw [List.length_append]
    exact (Nat.add_mod_left 2 _).trans heven
  have hstray : strayChar? (['0', 'x'] ++ cs) = some ('x', 1) := rfl
  rw [ofText_eq, (bytewise_eq_iff hascii).2 h]
  change readDigits (['0', 'x'] ++ cs) = _
  simp only [readDigits, hlength, hstray]
  rfl

end Keys

end Secp256k1

end CommitReveal
