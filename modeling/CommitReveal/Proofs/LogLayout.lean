import CommitReveal.Oracle.Event

/-! What a log has to look like to be read as an event. Its topics are the hash of a declaration and the indexed
addresses, each in the low-order bytes of a word; its data begins with the words of that declaration. Such logs are
read as the event whose fields they hold, and no others are read at all. -/
namespace CommitReveal.OracleEvent

def Kind.indexed : Kind → Nat
  | .subscribe => 2
  | .commitHash | .revealSeed | .unSubscribe | .randomConsumed => 1

def Kind.words : Kind → Nat
  | .commitHash | .revealSeed => 2
  | .subscribe | .unSubscribe | .randomConsumed => 1

/-- The event of a kind that words for its addresses and words of data hold. -/
inductive Holds : Kind → List Hash → List Hash → OracleEvent → Prop
  | subscribe (committer consumer hash : Hash) : Holds .subscribe [committer, consumer] [hash]
      (.subscribed (.ofWord committer) (.ofWord consumer) hash)
  /-- Of the word for the block only the low-order 64 bits count. -/
  | commitHash (sender hash number : Hash) (block : Word) (low : block.toNat = number.toNat % UInt64.size) :
    Holds .commitHash [sender] [hash, number] (.commitRegistered (.ofWord sender) hash block)
  | revealSeed (committer hash seed : Hash) : Holds .revealSeed [committer] [hash, seed]
      (.seedRevealed (.ofWord committer) hash seed)
  | unSubscribe (consumer hash : Hash) : Holds .unSubscribe [consumer] [hash]
      (.unsubscribed (.ofWord consumer) hash)
  | randomConsumed (consumer hash : Hash) : Holds .randomConsumed [consumer] [hash]
      (.randomConsumed (.ofWord consumer) hash)

section Layout

variable {args words : List Hash} {data : Bytes} {e : OracleEvent} {k : Kind}

theorem Holds.length (h : Holds k args words e) : args.length = k.indexed ∧ words.length = k.words := by
  cases h <;> exact ⟨rfl, rfl⟩

theorem exists_holds (hargs : args.length = k.indexed) (hwords : words.length = k.words) :
    ∃ e, Holds k args words e := by
  cases k with
  | subscribe =>
    match args, words, hargs, hwords with
    | [a, b], [w], _, _ => exact ⟨_, .subscribe a b w⟩
  | commitHash =>
    match args, words, hargs, hwords with
    | [a], [w, number], _, _ => exact ⟨_, .commitHash a w number (.ofNat number.toNat) UInt64.toNat_ofNat'⟩
  | revealSeed =>
    match args, words, hargs, hwords with
    | [a], [w, seed], _, _ => exact ⟨_, .revealSeed a w seed⟩
  | unSubscribe =>
    match args, words, hargs, hwords with
    | [a], [w], _, _ => exact ⟨_, .unSubscribe a w⟩
  | randomConsumed =>
    match args, words, hargs, hwords with
    | [a], [w], _, _ => exact ⟨_, .randomConsumed a w⟩

def spell (words : List Hash) : Bytes :=
  words.flatMap (·.bytes)

@[simp] theorem spell_cons (w : Hash) (words : List Hash) : spell (w :: words) = w.bytes ++ spell words :=
  List.flatMap_cons

@[simp] theorem spell_nil : spell [] = [] := rfl

theorem length_spell (words : List Hash) : (spell words).length = 32 * words.length := by
  induction words with
  | nil => rfl
  | cons w words ih =>
    rw [spell_cons, List.length_append, ih, w.length_bytes, List.length_cons]
    omega

theorem exists_spell {n : Nat} (h : 32 * n ≤ data.length) :
    ∃ words extra, words.length = n ∧ data = spell words ++ extra := by
  induction n generalizing data with
  | zero => exact ⟨[], data, rfl, rfl⟩
  | succ n ih =>
    have hrest : 32 * n ≤ (data.drop 32).length := by
      rw [List.length_drop]
      omega
    obtain ⟨words, extra, rfl, hdata⟩ := ih hrest
    have hfirst : (data.take 32).length = 32 := by
      rw [List.length_take]
      omega
    refine ⟨⟨data.take 32, hfirst⟩ :: words, extra, rfl, ?_⟩
    rw [spell_cons, List.append_assoc, ← hdata]
    exact (List.take_append_drop 32 data).symm

end Layout

section Reading

variable {α : Type} {topics : List Hash} {data : Bytes} {e : OracleEvent} {x : α}

theorem word?_zero_iff {w : Hash} : word? data 0 = some w ↔ ∃ rest, data = w.bytes ++ rest := by
  unfold word?
  rw [FixedBytes.ofBytes?_eq_some_iff, Nat.mul_zero, List.drop_zero]
  constructor
  · intro h
    exact ⟨data.drop 32, by rw [← h, List.take_append_drop]⟩
  · rintro ⟨rest, rfl⟩
    exact List.take_left' w.length_bytes

theorem word?_succ (w : Hash) (rest : Bytes) (i : Nat) : word? (w.bytes ++ rest) (i + 1) = word? rest i := by
  unfold word?
  have hdrop : (w.bytes ++ rest).drop (32 * (i + 1)) = rest.drop (32 * i) := by
    rw [Nat.mul_succ, Nat.add_comm, ← List.drop_drop, List.drop_left' w.length_bytes]
  rw [hdrop]

theorem bind_word_eq_some_iff {f : Hash → Option α} :
    (word? data 0 >>= f) = some x ↔ ∃ w extra, data = spell [w] ++ extra ∧ f w = some x := by
  rw [Option.bind_eq_bind, Option.bind_eq_some_iff]
  constructor
  · rintro ⟨w, hw, hx⟩
    obtain ⟨extra, rfl⟩ := word?_zero_iff.1 hw
    exact ⟨w, extra, by simp, hx⟩
  · rintro ⟨w, extra, rfl, hx⟩
    exact ⟨w, word?_zero_iff.2 ⟨extra, by simp⟩, hx⟩

theorem bind_words_eq_some_iff {f : Hash → Hash → Option α} :
    (word? data 0 >>= fun v => word? data 1 >>= f v) = some x ↔
      ∃ v w extra, data = spell [v, w] ++ extra ∧ f v w = some x := by
  rw [bind_word_eq_some_iff]
  constructor
  · rintro ⟨v, rest, rfl, h⟩
    rw [spell_cons, spell_nil, List.append_nil, word?_succ] at h
    obtain ⟨w, extra, rfl, hx⟩ := bind_word_eq_some_iff.1 h
    exact ⟨v, w, extra, by simp, hx⟩
  · rintro ⟨v, w, extra, rfl, hx⟩
    refine ⟨v, spell [w] ++ extra, by simp, ?_⟩
    rw [spell_cons, List.append_assoc, word?_succ]
    exact bind_word_eq_some_iff.2 ⟨w, extra, by simp, hx⟩

theorem Kind.signature_inj {a b : Kind} : a.signature = b.signature ↔ a = b := by
  cases a <;> cases b <;> decide +kernel

/-- Topics and data spell an event just if they are laid out as one of the declarations says. -/
theorem ofLog?_eq_some_iff : ofLog? topics data = some e ↔ ∃ k args words extra,
    topics = Kind.signature k :: args ∧ data = spell words ++ extra ∧ Holds k args words e := by
  constructor
  · intro h
    unfold ofLog? at h
    split at h
    · rename_i signature a b
      split at h
      · rename_i hk
        obtain ⟨w, extra, rfl, hx⟩ := bind_word_eq_some_iff.1 h
        cases hx
        exact ⟨.subscribe, [a, b], [w], extra, by rw [hk], rfl, .subscribe a b w⟩
      · cases h
    · rename_i signature a
      split at h
      · rename_i hk
        obtain ⟨w, number, extra, rfl, hx⟩ := bind_words_eq_some_iff.1 h
        cases hx
        exact ⟨.commitHash, [a], [w, number], extra, by rw [hk], rfl,
          .commitHash a w number _ UInt64.toNat_ofNat'⟩
      split at h
      · rename_i hk
        obtain ⟨w, seed, extra, rfl, hx⟩ := bind_words_eq_some_iff.1 h
        cases hx
        exact ⟨.revealSeed, [a], [w, seed], extra, by rw [hk], rfl, .revealSeed a w seed⟩
      split at h
      · rename_i hk
        obtain ⟨w, extra, rfl, hx⟩ := bind_word_eq_some_iff.1 h
        cases hx
        exact ⟨.unSubscribe, [a], [w], extra, by rw [hk], rfl, .unSubscribe a w⟩
      split at h
      · rename_i hk
        obtain ⟨w, extra, rfl, hx⟩ := bind_word_eq_some_iff.1 h
        cases hx
        exact ⟨.randomConsumed, [a], [w], extra, by rw [hk], rfl, .randomConsumed a w⟩
      · cases h
    · cases h
  · rintro ⟨k, args, words, extra, rfl, rfl, hholds⟩
    cases hholds with
    | subscribe a b w =>
      simp only [ofLog?, if_true]
      exact bind_word_eq_some_iff.2 ⟨w, extra, rfl, rfl⟩
    | commitHash a w number block low =>
      have hblock : (UInt64.ofNat number.toNat : Word) = block :=
        UInt64.toNat_inj.1 (UInt64.toNat_ofNat'.trans low.symm)
      simp only [ofLog?, if_true]
      exact bind_words_eq_some_iff.2 ⟨w, number, extra, rfl, by rw [hblock]⟩
    | revealSeed a w seed =>
      simp only [ofLog?, Kind.signature_inj, reduceCtorEq, if_true, if_false]
      exact bind_words_eq_some_iff.2 ⟨w, seed, extra, rfl, rfl⟩
    | unSubscribe a w =>
      simp only [ofLog?, Kind.signature_inj, reduceCtorEq, if_true, if_false]
      exact bind_word_eq_some_iff.2 ⟨w, extra, rfl, rfl⟩
    | randomConsumed a w =>
      simp only [ofLog?, Kind.signature_inj, reduceCtorEq, if_true, if_false]
      exact bind_word_eq_some_iff.2 ⟨w, extra, rfl, rfl⟩

theorem decode_eq_ok_iff : decode topics data = .ok e ↔ ofLog? topics data = some e := by
  unfold decode
  cases ofLog? topics data with
  | none => exact ⟨nofun, nofun⟩
  | some e' => exact ⟨fun h => congrArg some (Except.ok.inj h), fun h => congrArg Except.ok (Option.some.inj h)⟩

theorem exists_holds_of_addresses {args : List Hash} (hargs : args.map Address.ofWord = e.addresses) :
    ∃ words, e.data = spell words ∧ Holds e.kind args words e := by
  cases e with
  | subscribed committer consumer hash =>
    obtain ⟨a, _, rfl, rfl, hrest⟩ := List.map_eq_cons_iff.1 hargs
    obtain ⟨b, rfl, rfl⟩ := List.map_eq_singleton_iff.1 hrest
    exact ⟨[hash], by simp [data, OracleEvent.hash], .subscribe a b hash⟩
  | commitRegistered sender hash block =>
    obtain ⟨a, rfl, rfl⟩ := List.map_eq_singleton_iff.1 hargs
    refine ⟨[hash, .ofNat 32 block.toNat], by simp [data, FixedBytes.ofNat], .commitHash a hash _ block ?_⟩
    have hfits : block.toNat < Nat.pow 256 32 := Nat.lt_trans block.toNat_lt (by decide)
    rw [FixedBytes.toNat_ofNat, Nat.mod_eq_of_lt hfits]
    exact (Nat.mod_eq_of_lt block.toNat_lt).symm
  | seedRevealed committer hash seed =>
    obtain ⟨a, rfl, rfl⟩ := List.map_eq_singleton_iff.1 hargs
    exact ⟨[hash, seed], by simp [data], .revealSeed a hash seed⟩
  | unsubscribed consumer hash =>
    obtain ⟨a, rfl, rfl⟩ := List.map_eq_singleton_iff.1 hargs
    exact ⟨[hash], by simp [data, OracleEvent.hash], .unSubscribe a hash⟩
  | randomConsumed consumer hash =>
    obtain ⟨a, rfl, rfl⟩ := List.map_eq_singleton_iff.1 hargs
    exact ⟨[hash], by simp [data, OracleEvent.hash], .randomConsumed a hash⟩

theorem decode_eq_ok_iff_laid_out : decode topics data = .ok e ↔ ∃ k args words extra,
    topics = Keccak.hash (.ofAscii (Kind.declaration k)) :: args ∧ data = spell words ++ extra ∧
      Holds k args words e := by
  rw [decode_eq_ok_iff, ofLog?_eq_some_iff]
  simp only [Kind.signature_eq]

theorem decode_written {args : List Hash} (hargs : args.map Address.ofWord = e.addresses) (extra : Bytes) :
    decode (e.kind.signature :: args) (e.data ++ extra) = .ok e := by
  obtain ⟨words, hdata, hholds⟩ := exists_holds_of_addresses hargs
  rw [decode_eq_ok_iff, ofLog?_eq_some_iff]
  exact ⟨e.kind, args, words, extra, rfl, by rw [hdata], hholds⟩

theorem exists_decode_iff : (∃ e, decode topics data = .ok e) ↔ ∃ k,
    topics.head? = some (Keccak.hash (.ofAscii (Kind.declaration k))) ∧ topics.length = 1 + k.indexed ∧
      32 * k.words ≤ data.length := by
  constructor
  · rintro ⟨e, he⟩
    obtain ⟨k, args, words, extra, rfl, rfl, hholds⟩ := decode_eq_ok_iff_laid_out.1 he
    obtain ⟨hargs, hwords⟩ := hholds.length
    refine ⟨k, rfl, ?_, ?_⟩
    · rw [List.length_cons, hargs, Nat.add_comm]
    · rw [List.length_append, length_spell, hwords]
      exact Nat.le_add_right _ _
  · rintro ⟨k, hhead, hlength, hdata⟩
    obtain ⟨args, rfl⟩ := List.head?_eq_some_iff.1 hhead
    obtain ⟨words, extra, hwords, rfl⟩ := exists_spell hdata
    rw [List.length_cons, Nat.add_comm] at hlength
    obtain ⟨e, hholds⟩ := exists_holds (Nat.add_left_cancel hlength) hwords
    exact ⟨e, decode_eq_ok_iff_laid_out.2 ⟨k, args, words, extra, rfl, rfl, hholds⟩⟩

theorem decode_refused (hno : ∀ e, decode topics data ≠ .ok e) :
    decode topics data = .error (.decode "Invalid data") := by
  unfold decode at hno ⊢
  cases hspelled : ofLog? topics data with
  | none => rfl
  | some e =>
    rw [hspelled] at hno
    exact absurd rfl (hno e)

/-- A log is read as an event just if it is laid out as one of the declarations says, whatever leads its
addresses and whatever follows its data. -/
theorem decode_iff_laid_out :
    (∀ (e : OracleEvent) oracle block index, decode (e.toLog oracle block index).topics
      (e.toLog oracle block index).data = .ok e) ∧
    (∀ (e : OracleEvent) args extra, args.map Address.ofWord = e.addresses →
      decode (e.kind.signature :: args) (e.data ++ extra) = .ok e) ∧
    (∀ topics data e, decode topics data = .ok e ↔ ∃ k args words extra,
      topics = Keccak.hash (.ofAscii (Kind.declaration k)) :: args ∧ data = spell words ++ extra ∧
        Holds k args words e) ∧
    (∀ topics data, (∃ e, decode topics data = .ok e) ↔ ∃ k,
      topics.head? = some (Keccak.hash (.ofAscii (Kind.declaration k))) ∧ topics.length = 1 + k.indexed ∧
        32 * k.words ≤ data.length) ∧
    ∀ topics data, (∀ e, decode topics data ≠ .ok e) → decode topics data = .error (.decode "Invalid data") := by
  refine ⟨fun e oracle block index => ?_, fun e args extra hargs => decode_written hargs extra,
    fun topics data e => decode_eq_ok_iff_laid_out, fun topics data => exists_decode_iff,
    fun topics data => decode_refused⟩
  have hargs : (e.addresses.map Address.toWord).map Address.ofWord = e.addresses := by
    rw [List.map_map]
    exact List.map_id'' Address.ofWord_toWord _
  have hplain := decode_written hargs []
  rwa [List.append_nil] at hplain

end Reading

theorem decode_iff_laid_out_marked :
    decode [Kind.signature .revealSeed, ⟨List.replicate 12 9 ++ List.replicate 20 1, rfl⟩]
      (List.replicate 32 3 ++ List.replicate 32 7 ++ [5]) = .ok (.seedRevealed (.fill 20 1) (.fill 32 3) (.fill 32 7)) ∧
    decode [Kind.signature .revealSeed, .fill 32 1] (List.replicate 63 3) = .error (.decode "Invalid data") := by
  obtain ⟨-, hwritten, -, hlaid, hrefused⟩ := decode_iff_laid_out
  refine ⟨hwritten (.seedRevealed (.fill 20 1) (.fill 32 3) (.fill 32 7)) _ [5] rfl, hrefused _ _ fun e he => ?_⟩
  obtain ⟨k, hhead, -, hlength⟩ := (hlaid _ _).1 ⟨e, he⟩
  rw [← Kind.signature_eq] at hhead
  obtain rfl : Kind.revealSeed = k := Kind.signature_inj.1 (Option.some.inj hhead)
  exact absurd hlength (by decide)

end CommitReveal.OracleEvent
