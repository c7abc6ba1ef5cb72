import CommitReveal.Proofs.Fallible
import CommitReveal.Proofs.Holdings

/-! Records as bytes. A record has one layout, bytes that begin with it are read as that record, and all others
are refused for the first thing that is wrong with them. -/
namespace CommitReveal.CommitRecord

open Store (RecordFault)

/-- How the block of a commit is laid out: a byte 0, or a byte 1 and the number in eight bytes. -/
inductive BlockLayout : Option Word → Bytes → Prop
  | absent : BlockLayout none [0]
  | present (block : Word) (number : Bytes) (width : number.length = 8)
    (value : Bytes.toNatLE number = block.toNat) : BlockLayout (some block) (1 :: number)

/-- How a record is laid out: the place of its status among the six in four bytes, its block, and its time in
eight bytes as two's complement. Every number has its least significant byte first. -/
inductive Layout (r : CommitRecord) : Bytes → Prop
  | mk (status block time : Bytes)
    (statusWidth : status.length = 4) (statusValue : Bytes.toNatLE status = r.status.tag)
    (blockLayout : BlockLayout r.commitBlock block)
    (timeWidth : time.length = 8) (timeValue : (Bytes.toNatLE time : Int) = r.updatedAt.toInt % UInt64.size) :
    Layout r (status ++ block ++ time)

/-- The first thing that is wrong with bytes that are read as a record. -/
inductive Faulty : Bytes → RecordFault → Prop
  | status_short (bytes : Bytes) (short : bytes.length < 4) : Faulty bytes .truncated
  | status_unknown (status rest : Bytes) (width : status.length = 4) (unknown : 6 ≤ Bytes.toNatLE status) :
    Faulty (status ++ rest) (.statusTag (Bytes.toNatLE status))
  | option_missing (st : Status) : Faulty (Bytes.ofNatLE 4 st.tag) .truncated
  | option_unknown (st : Status) (option : UInt8) (rest : Bytes) (unknown : 2 ≤ option.toNat) :
    Faulty (Bytes.ofNatLE 4 st.tag ++ option :: rest) (.optionTag option.toNat)
  | block_short (st : Status) (rest : Bytes) (short : rest.length < 8) :
    Faulty (Bytes.ofNatLE 4 st.tag ++ 1 :: rest) .truncated
  | time_short (st : Status) (block : Option Word) (rest : Bytes) (short : rest.length < 8) :
    Faulty (Bytes.ofNatLE 4 st.tag ++ (encodeBlock block ++ rest)) .truncated

section Numbers

variable {digits bytes : Bytes} {width : Nat}

theorem ofNatLE_of_width (hwidth : digits.length = width) :
    Bytes.ofNatLE width (Bytes.toNatLE digits) = digits := by
  rw [← hwidth, Bytes.ofNatLE_toNatLE]

theorem toNatLE_eq_iff (width : Nat) {n : Nat} (hfits : n < Nat.pow 256 width) :
    digits.length = width ∧ Bytes.toNatLE digits = n ↔ digits = Bytes.ofNatLE width n := by
  constructor
  · rintro ⟨hwidth, rfl⟩
    exact (ofNatLE_of_width hwidth).symm
  · rintro rfl
    exact ⟨Bytes.length_ofNatLE width n, by rw [Bytes.toNatLE_ofNatLE, Nat.mod_eq_of_lt hfits]⟩

theorem exists_append (h : width ≤ bytes.length) : ∃ digits rest, digits.length = width ∧ bytes = digits ++ rest :=
  ⟨bytes.take width, bytes.drop width, List.length_take_of_le h, (List.take_append_drop width bytes).symm⟩

theorem exists_word (hwidth : digits.length = 8) : ∃ w : Word, digits = Bytes.ofNatLE 8 w.toNat := by
  have hfits := Bytes.toNatLE_lt digits
  rw [hwidth] at hfits
  refine ⟨.ofNat (Bytes.toNatLE digits), ?_⟩
  rw [UInt64.toNat_ofNat', Nat.mod_eq_of_lt hfits, ofNatLE_of_width hwidth]

theorem exists_tag {n : Nat} (h : n < 6) : ∃ st : Status, st.tag = n := by
  match n, h with
  | 0, _ => exact ⟨.created, rfl⟩
  | 1, _ => exact ⟨.committed, rfl⟩
  | 2, _ => exact ⟨.pendingReveal, rfl⟩
  | 3, _ => exact ⟨.revealed, rfl⟩
  | 4, _ => exact ⟨.expired, rfl⟩
  | 5, _ => exact ⟨.abandoned, rfl⟩

theorem toNat_toUInt64 (t : Int64) : (t.toUInt64.toNat : Int) = t.toInt % UInt64.size := by
  have hsigned : t.toInt = (t.toUInt64.toNat : Int).bmod UInt64.size := t.toBitVec.toInt_eq_toNat_bmod
  rw [hsigned, Int.bmod_emod, Int.emod_eq_of_lt (Int.natCast_nonneg _) (Int.ofNat_lt.2 t.toUInt64.toNat_lt)]

end Numbers

section Layouts

variable {r r' : CommitRecord} {bytes rest : Bytes} {fault : RecordFault}

theorem blockLayout_iff {block : Option Word} : BlockLayout block bytes ↔ bytes = encodeBlock block := by
  constructor
  · rintro (_ | ⟨block, number, hwidth, hvalue⟩)
    · rfl
    · rw [encodeBlock, (toNatLE_eq_iff 8 block.toNat_lt).1 ⟨hwidth, hvalue⟩]
  · rintro rfl
    cases block with
    | none => exact .absent
    | some block =>
      obtain ⟨hwidth, hvalue⟩ := (toNatLE_eq_iff 8 block.toNat_lt).2 rfl
      exact .present block _ hwidth hvalue

theorem layout_iff : Layout r bytes ↔ bytes = r.encode := by
  have htag : r.status.tag < Nat.pow 256 4 := Nat.lt_trans r.status.tag_lt (by decide)
  have htime := r.updatedAt.toUInt64.toNat_lt
  constructor
  · rintro ⟨status, block, time, hstatus, hplace, hblock, hwidth, hseconds⟩
    rw [← toNat_toUInt64, Int.ofNat_inj] at hseconds
    rw [encode, (toNatLE_eq_iff 4 htag).1 ⟨hstatus, hplace⟩, blockLayout_iff.1 hblock,
      (toNatLE_eq_iff 8 htime).1 ⟨hwidth, hseconds⟩]
  · rintro rfl
    obtain ⟨hstatus, hplace⟩ := (toNatLE_eq_iff 4 htag).2 rfl
    obtain ⟨hwidth, hseconds⟩ := (toNatLE_eq_iff 8 htime).2 rfl
    refine .mk _ _ _ hstatus hplace (blockLayout_iff.2 rfl) hwidth ?_
    rw [hseconds, toNat_toUInt64]

theorem readNat_short {width : Nat} (h : bytes.length < width) : readNat width bytes = .error .truncated :=
  if_neg (Nat.not_le_of_lt h)

theorem readNat_append {width : Nat} {digits : Bytes} (hwidth : digits.length = width) :
    readNat width (digits ++ rest) = .ok (Bytes.toNatLE digits, rest) := by
  subst hwidth
  simp [readNat]

theorem decode_of_status (st : Status) (h : readBlock rest = .error fault) :
    decode (Bytes.ofNatLE 4 st.tag ++ rest) = .error fault :=
  (bind_of_ok (readStatus_encode st rest)).trans (bind_of_error h)

theorem readBlock_unknown {option : UInt8} (h : 2 ≤ option.toNat) :
    readBlock (option :: rest) = .error (.optionTag option.toNat) := by
  have hread : readNat 1 (option :: rest) = .ok (option.toNat, rest) :=
    readNat_append (show [option].length = 1 from rfl)
  rw [readBlock, hread]
  dsimp only [bind, Except.bind]
  split
  · omega
  · omega
  · rfl

theorem decode_of_faulty (h : Faulty bytes fault) : decode bytes = .error fault := by
  cases h with
  | status_short _ short => rw [decode, readStatus, readNat_short short]; rfl
  | status_unknown status rest width unknown =>
    have hnone : Status.ofTag? (Bytes.toNatLE status) = none := by
      rw [Option.eq_none_iff_forall_ne_some]
      intro st hst
      have hlt := st.tag_lt
      rw [← Status.ofTag?_eq_some_iff.1 hst] at hlt
      exact absurd unknown (Nat.not_le_of_lt hlt)
    rw [decode, readStatus, readNat_append width]
    simp only [bind, Except.bind, hnone]
    rfl
  | option_missing st => exact List.append_nil (Bytes.ofNatLE 4 st.tag) ▸ decode_of_status st rfl
  | option_unknown st option rest unknown => exact decode_of_status st (readBlock_unknown unknown)
  | block_short st rest short =>
    refine decode_of_status st ?_
    show (readNat 8 rest >>= _) = _
    exact bind_of_error (readNat_short short)
  | time_short st block rest short =>
    calc decode (Bytes.ofNatLE 4 st.tag ++ (encodeBlock block ++ rest))
      _ = _ := bind_of_ok (readStatus_encode st _)
      _ = _ := bind_of_ok (readBlock_encode block rest)
      _ = .error .truncated := bind_of_error (readNat_short short)

theorem begins_or_short (st : Status) (block : Option Word) (rest : Bytes) :
    (∃ r : CommitRecord, r.encode <+: Bytes.ofNatLE 4 st.tag ++ (encodeBlock block ++ rest)) ∨
      Faulty (Bytes.ofNatLE 4 st.tag ++ (encodeBlock block ++ rest)) .truncated := by
  by_cases hshort : rest.length < 8
  · exact .inr (.time_short st block rest hshort)
  · obtain ⟨time, extra, hwidth, rfl⟩ := exists_append (Nat.le_of_not_lt hshort)
    obtain ⟨w, rfl⟩ := exists_word hwidth
    refine .inl ⟨⟨st, block, w.toInt64⟩, extra, ?_⟩
    simp [encode]

/-- Bytes begin with a record, or something is wrong with them. -/
theorem begins_or_faulty (bytes : Bytes) : (∃ r : CommitRecord, r.encode <+: bytes) ∨ ∃ fault, Faulty bytes fault := by
  by_cases hshort : bytes.length < 4
  · exact .inr ⟨_, .status_short bytes hshort⟩
  obtain ⟨status, rest, hwidth, rfl⟩ := exists_append (Nat.le_of_not_lt hshort)
  by_cases hunknown : 6 ≤ Bytes.toNatLE status
  · exact .inr ⟨_, .status_unknown status rest hwidth hunknown⟩
  obtain ⟨st, htag⟩ := exists_tag (Nat.lt_of_not_le hunknown)
  obtain rfl : Bytes.ofNatLE 4 st.tag = status := by
    rw [htag, ofNatLE_of_width hwidth]
  match rest with
  | [] => exact .inr ⟨_, by rw [List.append_nil]; exact .option_missing st⟩
  | option :: rest =>
    by_cases hoption : 2 ≤ option.toNat
    · exact .inr ⟨_, .option_unknown st option rest hoption⟩
    rcases Nat.lt_or_ge option.toNat 1 with hzero | hone
    · obtain rfl : option = 0 := UInt8.toNat_inj.1 (Nat.lt_one_iff.1 hzero)
      exact (begins_or_short st none rest).imp id fun h => ⟨_, h⟩
    · obtain rfl : option = 1 := UInt8.toNat_inj.1 (Nat.le_antisymm (Nat.le_of_lt_succ (Nat.lt_of_not_le hoption)) hone)
      by_cases hblock : rest.length < 8
      · exact .inr ⟨_, .block_short st rest hblock⟩
      obtain ⟨number, rest, hwidth', rfl⟩ := exists_append (Nat.le_of_not_lt hblock)
      obtain ⟨w, rfl⟩ := exists_word hwidth'
      exact (begins_or_short st (some w) rest).imp id fun h => ⟨_, h⟩

theorem decode_eq_ok_iff : decode bytes = .ok r ↔ r.encode <+: bytes := by
  constructor
  · intro h
    rcases begins_or_faulty bytes with ⟨r', extra, rfl⟩ | ⟨fault, hfaulty⟩
    · rw [decode_encode_append] at h
      obtain rfl := Except.ok.inj h
      exact List.prefix_append _ _
    · rw [decode_of_faulty hfaulty] at h
      cases h
  · rintro ⟨extra, rfl⟩
    exact decode_encode_append r extra

theorem decode_eq_error_iff : decode bytes = .error fault ↔ Faulty bytes fault := by
  refine ⟨fun h => ?_, decode_of_faulty⟩
  rcases begins_or_faulty bytes with ⟨r', hbegins⟩ | ⟨fault', hfaulty⟩
  · rw [decode_eq_ok_iff.2 hbegins] at h
    cases h
  · obtain rfl := Except.error.inj (h.symm.trans (decode_of_faulty hfaulty))
    exact hfaulty

end Layouts

section Stored

open Repository (recordOfBytes peek runOn)

variable {r : CommitRecord} {bytes : Bytes} {b : Store.Backend} {hash : Hash}

theorem recordOfBytes_eq_ok_iff : recordOfBytes bytes = .ok r ↔ r.encode <+: bytes := by
  rw [← decode_eq_ok_iff]
  exact mapError_eq_ok_iff

theorem recordOfBytes_eq_error_iff {fault : RecordFault} :
    recordOfBytes bytes = .error (.record fault) ↔ Faulty bytes fault := by
  rw [← decode_eq_error_iff, recordOfBytes, mapError_eq_error_iff]
  simp

theorem peek_record_of_bytes (hget : b.get? (Repository.key .record hash) = some bytes) :
    peek (Repository.record hash) b = (recordOfBytes bytes).map some := by
  unfold Repository.record
  rw [Repository.peek_get_bind, hget]
  cases hread : recordOfBytes bytes <;> simp only [hread] <;> rfl

theorem peek_putRecord (r : CommitRecord) (b : Store.Backend) (hash : Hash) :
    peek (Repository.record hash) (runOn 0 (Repository.putRecord hash r).run b).2 = .ok (some r) := by
  apply Repository.peek_record
  show (b.perform (.set (Repository.key .record hash) r.encode)).2.get? _ = _
  rw [Store.Backend.get?_set, if_pos rfl]

/-- Bytes are read as a record just if they begin with what is written for it; all others are refused, for
the first thing that is wrong with them. -/
theorem read_iff_begins :
    (∀ (r : CommitRecord) bytes, recordOfBytes bytes = .ok r ↔ r.encode <+: bytes) ∧
    (∀ (r : CommitRecord) bytes, Layout r bytes ↔ bytes = r.encode) ∧
    (∀ r : CommitRecord, recordOfBytes r.encode = .ok r) ∧
    (∀ r r' : CommitRecord, r.encode = r'.encode → r = r') ∧
    (∀ r r' : CommitRecord, r.encode <+: r'.encode → r.encode = r'.encode) ∧
    (∀ bytes, (∀ r : CommitRecord, ¬r.encode <+: bytes) →
      ∃ fault, recordOfBytes bytes = .error (.record fault)) ∧
    (∀ bytes fault, recordOfBytes bytes = .error (.record fault) ↔ Faulty bytes fault) ∧
    (∀ (b : Store.Backend) hash bytes, b.get? (Repository.key .record hash) = some bytes →
      peek (Repository.record hash) b = (recordOfBytes bytes).map some) ∧
    ∀ (b : Store.Backend) hash r,
      peek (Repository.record hash) (runOn 0 (Repository.putRecord hash r).run b).2 = .ok (some r) := by
  refine ⟨fun r bytes => recordOfBytes_eq_ok_iff, fun r bytes => layout_iff, Repository.recordOfBytes_encode,
    fun r r' => Repository.encode_inj, fun r r' hbegins => ?_, fun bytes hno => ?_,
    fun bytes fault => recordOfBytes_eq_error_iff, fun b hash bytes => peek_record_of_bytes,
    fun b hash r => peek_putRecord r b hash⟩
  · have hread := recordOfBytes_eq_ok_iff.2 hbegins
    rw [Repository.recordOfBytes_encode] at hread
    rw [Except.ok.inj hread]
  · rcases begins_or_faulty bytes with ⟨r, hbegins⟩ | ⟨fault, hfaulty⟩
    · exact absurd hbegins (hno r)
    · exact ⟨fault, recordOfBytes_eq_error_iff.2 hfaulty⟩

def holding (bytes : Bytes) : Store.Backend :=
  ((Store.Backend.memory .empty).perform (.set (Repository.key .record (.fill 32 3)) bytes)).2

theorem read_iff_begins_trailing :
    (holding [2, 0, 0, 0, 1, 255, 1, 0, 0, 0, 0, 0, 0, 254, 255, 255, 255, 255, 255, 255, 255, 7]).get?
      (Repository.key .record (.fill 32 3)) =
        some [2, 0, 0, 0, 1, 255, 1, 0, 0, 0, 0, 0, 0, 254, 255, 255, 255, 255, 255, 255, 255, 7] ∧
    peek (Repository.record (.fill 32 3))
      (holding [2, 0, 0, 0, 1, 255, 1, 0, 0, 0, 0, 0, 0, 254, 255, 255, 255, 255, 255, 255, 255, 7]) =
        .ok (some ⟨.pendingReveal, some 511, -2⟩) ∧
    (∀ r : CommitRecord, ¬r.encode <+: [2, 0, 0, 0, 0, 254, 255]) ∧
    ∃ fault, recordOfBytes [2, 0, 0, 0, 0, 254, 255] = .error (.record fault) := by
  obtain ⟨hread, -, -, -, -, hrefused, hfault, hstored, -⟩ := read_iff_begins
  have hget : (holding [2, 0, 0, 0, 1, 255, 1, 0, 0, 0, 0, 0, 0, 254, 255, 255, 255, 255, 255, 255, 255, 7]).get?
      (Repository.key .record (.fill 32 3)) =
        some [2, 0, 0, 0, 1, 255, 1, 0, 0, 0, 0, 0, 0, 254, 255, 255, 255, 255, 255, 255, 255, 7] := by
    rw [holding, Store.Backend.get?_set, if_pos rfl]
  have hshort : Faulty [2, 0, 0, 0, 0, 254, 255] .truncated :=
    .time_short .pendingReveal none [254, 255] (by decide)
  have hno : ∀ r : CommitRecord, ¬r.encode <+: [2, 0, 0, 0, 0, 254, 255] := by
    intro r hbegins
    have hok := (hread r _).2 hbegins
    rw [(hfault _ _).2 hshort] at hok
    cases hok
  refine ⟨hget, ?_, hno, hrefused _ hno⟩
  rw [hstored _ _ _ hget, (hread ⟨.pendingReveal, some 511, -2⟩ _).2 ⟨[7], by decide⟩]
  rfl

end Stored

end CommitReveal.CommitRecord
