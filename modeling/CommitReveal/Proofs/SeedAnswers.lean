import CommitReveal.Api.SeedLookup
import CommitReveal.Proofs.Conditions
import CommitReveal.Proofs.HexText

/-! How the seed look-up answers. A text that spells no hash is refused; otherwise the answer is decided by the
hash that it spells, in whatever way it does, and by what the store has to say about that hash. -/
namespace CommitReveal.Text

/-- A text, and what is left of it without the blanks at both ends. -/
inductive Trimmed : List Char → List Char → Prop
  | mk (before core after : List Char) (front : ∀ c ∈ before, isBlank c) (back : ∀ c ∈ after, isBlank c)
    (first : ∀ c ∈ core.head?, ¬isBlank c) (last : ∀ c ∈ core.getLast?, ¬isBlank c) :
    Trimmed (before ++ (core ++ after)) core

section Ends

variable {p : Char → Bool} {cs core before rest : List Char}

theorem dropWhile_exact (hbefore : ∀ c ∈ before, p c) (hrest : ∀ c ∈ rest.head?, ¬p c) :
    (before ++ rest).dropWhile p = rest := by
  rw [List.dropWhile_append_of_pos hbefore]
  cases rest with
  | nil => rfl
  | cons c rest => exact List.dropWhile_cons_of_neg (hrest c rfl)

theorem head_dropWhile : ∀ c ∈ (cs.dropWhile p).head?, ¬p c := by
  intro c hc
  have hnot := List.head?_dropWhile_not p cs
  rw [hc] at hnot
  exact Bool.not_eq_true _ ▸ hnot

theorem trim_of_trimmed (h : Trimmed cs core) : trim cs = core := by
  obtain ⟨before, _, after, hfront, hback, hfirst, hlast⟩ := h
  unfold trim
  cases core with
  | nil =>
    rw [List.dropWhile_append_of_pos hfront, List.nil_append, List.dropWhile_eq_nil_iff.2 hback]
    rfl
  | cons c core =>
    have hback' : ∀ c ∈ after.reverse, isBlank c := fun c hc => hback c (List.mem_reverse.1 hc)
    have hlast' : ∀ d ∈ (c :: core).reverse.head?, ¬isBlank d := by rwa [List.head?_reverse]
    have hfirst' : ∀ d ∈ (c :: core ++ after).head?, ¬isBlank d := hfirst
    rw [dropWhile_exact hfront hfirst', List.reverse_append, dropWhile_exact hback' hlast', List.reverse_reverse]

theorem trimmed_trim (cs : List Char) : Trimmed cs (trim cs) := by
  -- what follows the blanks in front ends with blanks of its own
  have hmid : trim cs ++ ((cs.dropWhile isBlank).reverse.takeWhile isBlank).reverse = cs.dropWhile isBlank := by
    rw [trim, ← List.reverse_append, List.takeWhile_append_dropWhile, List.reverse_reverse]
  have hfirst : ∀ c ∈ (trim cs).head?, ¬isBlank c := by
    intro c hc
    have hhead : c ∈ (cs.dropWhile isBlank).head? := by
      rw [← hmid, List.head?_append, hc]
      rfl
    exact head_dropWhile c hhead
  have hlast : ∀ c ∈ (trim cs).getLast?, ¬isBlank c := by
    rw [trim, List.getLast?_reverse]
    exact head_dropWhile
  have hback : ∀ c ∈ ((cs.dropWhile isBlank).reverse.takeWhile isBlank).reverse, isBlank c :=
    fun c hc => List.mem_takeWhile_imp (List.mem_reverse.1 hc)
  have hparts := Trimmed.mk (cs.takeWhile isBlank) (trim cs) _ (fun c => List.mem_takeWhile_imp) hback hfirst hlast
  rwa [hmid, List.takeWhile_append_dropWhile] at hparts

theorem trim_eq_iff : trim cs = core ↔ Trimmed cs core :=
  ⟨fun h => h ▸ trimmed_trim cs, trim_of_trimmed⟩

end Ends

end CommitReveal.Text

namespace CommitReveal.Api

open Repository (Conditions)
open Store (Backend StoreError)

/-- What a text that spells a hash looks like between the blanks around it: 64 digits of either case, with or
without a mark in front. -/
def IsHashText (text : String) : Prop :=
  ∃ mark digits, Text.Trimmed text.toList (mark ++ digits) ∧ mark ∈ Hex.marks ∧ Hex.IsDigits 64 digits

def Spelling (hash : Hash) (text : String) : Prop :=
  ∃ mark digits, Text.Trimmed text.toList (mark ++ digits) ∧ mark ∈ Hex.marks ∧
    digits.map Char.toLower = Hex.digits hash.bytes

def SeedAnswer.parts (a : SeedAnswer) : String × String × Option String :=
  (a.code, a.message, a.data?)

/-- How a text is answered for when the store has these contents and its calls end in this way. -/
def answerIn (w : Conditions) (b : Backend) (text : String) : SeedAnswer :=
  ((lookUp text).run w.answer (.first b)).1.1

/-- The seed of a hash is stored, and the store tells it. -/
structure Held (w : Conditions) (b : Backend) (hash : Hash) (seed : Seed) : Prop where
  heeded : w.fate 0 = .heeded
  stored : b.get? (Repository.key .seed hash) = some seed.bytes

/-- Why the store does not tell the seed of a hash. -/
inductive Withheld (w : Conditions) (b : Backend) (hash : Hash) : Prop
  | failed (cause : StoreError) (applied : Bool) (failed : w.fate 0 = .failed cause applied)
  | missing (missing : b.get? (Repository.key .seed hash) = none)
  | corrupt (bytes : Bytes) (stored : b.get? (Repository.key .seed hash) = some bytes)
    (malformed : bytes.length ≠ 32)

section Answers

variable {w : Conditions} {b : Backend} {text : String} {hash hash' : Hash} {seed : Seed}

theorem hashOfText?_eq_some_iff : hashOfText? text = some hash ↔ Spelling hash text := by
  unfold hashOfText? Spelling
  rw [Option.bind_eq_some_iff]
  constructor
  · rintro ⟨bytes, hbytes, hhash⟩
    obtain rfl := FixedBytes.ofBytes?_eq_some_iff.1 hhash
    obtain ⟨mark, hmark, digits, htrim, hsame⟩ := Hex.decodeMarked_eq_some_iff.1 hbytes
    exact ⟨mark, digits, Text.trim_eq_iff.1 htrim, hmark, hsame⟩
  · rintro ⟨mark, digits, htrim, hmark, hsame⟩
    have htrim := Text.trim_eq_iff.2 htrim
    exact ⟨hash.bytes, Hex.decodeMarked_eq_some_iff.2 ⟨mark, hmark, digits, htrim, hsame⟩,
      FixedBytes.ofBytes?_bytes hash⟩

theorem exists_spelling_iff : (∃ hash, Spelling hash text) ↔ IsHashText text := by
  constructor
  · rintro ⟨hash, mark, digits, htrim, hmark, hsame⟩
    have hdigits := Hex.exists_decode_iff.1 ⟨_, Hex.decode_eq_some_iff.2 hsame, hash.length_bytes⟩
    exact ⟨mark, digits, htrim, hmark, hdigits⟩
  · rintro ⟨mark, digits, htrim, hmark, hdigits⟩
    obtain ⟨bytes, hbytes, hwidth⟩ := Hex.exists_decode_iff (n := 32) |>.2 hdigits
    exact ⟨⟨bytes, hwidth⟩, mark, digits, htrim, hmark, Hex.decode_eq_some_iff.1 hbytes⟩

theorem spelling_inj (h : Spelling hash text) (h' : Spelling hash' text) : hash = hash' :=
  Option.some.inj ((hashOfText?_eq_some_iff.2 h).symm.trans (hashOfText?_eq_some_iff.2 h'))

theorem held_or_withheld (w : Conditions) (b : Backend) (hash : Hash) :
    (∃ seed, Held w b hash seed) ∨ Withheld w b hash := by
  cases hfate : w.fate 0 with
  | failed cause applied => exact .inr (.failed cause applied hfate)
  | heeded =>
    cases hget : b.get? (Repository.key .seed hash) with
    | none => exact .inr (.missing hget)
    | some bytes =>
      by_cases hwidth : bytes.length = 32
      · exact .inl ⟨⟨bytes, hwidth⟩, hfate, hget⟩
      · exact .inr (.corrupt bytes hget hwidth)

theorem answerIn_of_unspelled (h : ¬IsHashText text) : answerIn w b text = .invalidHash := by
  have hnone : hashOfText? text = none := by
    rw [Option.eq_none_iff_forall_ne_some]
    exact fun hash hhash => h (exists_spelling_iff.1 ⟨hash, hashOfText?_eq_some_iff.1 hhash⟩)
  unfold answerIn lookUp
  rw [hnone]
  rfl

def seedWithin : Option Bytes → Except StoreError (Option Seed)
  | none => .ok none
  | some bytes => (Repository.hashOfBytes bytes).map some

theorem run_seed (hash : Hash) : (Repository.seed hash).run =
    .ask (.call (.get (Repository.key .seed hash))) fun answer => .done (answer.bind seedWithin) := by
  have hread (x : Except StoreError Hash) :
      (do return some (← liftM x) : Repository.Action (Option Hash)).run = .done (x.map some) := by
    cases x <;> rfl
  refine congrArg (Program.ask _) (funext fun answer => ?_)
  cases answer with
  | error cause => rfl
  | ok value =>
    cases value with
    | none => rfl
    | some bytes => exact hread (Repository.hashOfBytes bytes)

def reading (w : Conditions) (b : Backend) (hash : Hash) : Except StoreError (Option Seed) :=
  ((w.fate 0).settle (.get (Repository.key .seed hash)) (.first b)).1.bind seedWithin

theorem reading_of_heeded (h : w.fate 0 = .heeded) :
    reading w b hash = seedWithin (b.get? (Repository.key .seed hash)) := by
  unfold reading
  rw [h]
  rfl

theorem reading_of_held (h : Held w b hash seed) : reading w b hash = .ok (some seed) := by
  rw [reading_of_heeded h.heeded, h.stored, seedWithin, Repository.hashOfBytes_bytes]
  rfl

theorem reading_of_withheld (h : Withheld w b hash) (seed : Seed) : reading w b hash ≠ .ok (some seed) := by
  intro hreading
  cases hfate : w.fate 0 with
  | failed cause applied =>
    unfold reading at hreading
    rw [hfate] at hreading
    cases hreading
  | heeded =>
    rw [reading_of_heeded hfate] at hreading
    cases h with
    | failed cause applied hfailed => cases hfate.symm.trans hfailed
    | missing hget =>
      rw [hget] at hreading
      cases hreading
    | corrupt bytes hget hmalformed =>
      have hread : Repository.hashOfBytes bytes = .error (.corrupt (.hashLength bytes.length)) := by
        unfold Repository.hashOfBytes FixedBytes.ofBytes?
        rw [dif_neg hmalformed]
      rw [hget, seedWithin, hread] at hreading
      cases hreading

theorem answerIn_spelled (h : Spelling hash text) :
    (∀ seed, reading w b hash = .ok (some seed) → answerIn w b text = .found seed) ∧
      ((∀ seed, reading w b hash ≠ .ok (some seed)) → answerIn w b text = .notFound) := by
  have hreading : (w.answer (.call (.get (Repository.key .seed hash))) (.first b)).1.bind seedWithin =
    reading w b hash := rfl
  unfold answerIn lookUp
  simp only [hashOfText?_eq_some_iff.2 h, run_seed, Program.bind_eq, Program.ask_bind, Program.done_bind, Program.run]
  rw [hreading]
  cases reading w b hash with
  | error cause =>
    refine ⟨fun seed hseed => ?_, fun _ => rfl⟩
    cases hseed
  | ok found =>
    cases found with
    | none =>
      refine ⟨fun seed hseed => ?_, fun _ => rfl⟩
      cases hseed
    | some seed => exact ⟨fun _ hseed => hseed ▸ rfl, fun hno => absurd rfl (hno seed)⟩

theorem withheld_iff : Withheld w b hash ↔ ∀ seed, ¬Held w b hash seed := by
  constructor
  · exact fun hwithheld seed hheld => reading_of_withheld hwithheld seed (reading_of_held hheld)
  · intro hno
    rcases held_or_withheld w b hash with ⟨seed, hheld⟩ | hwithheld
    · exact absurd hheld (hno seed)
    · exact hwithheld

theorem parts_of_held (h : Spelling hash text) (hheld : Held w b hash seed) :
    (answerIn w b text).parts = ("200", "ok", some (Hex.encode seed.bytes)) := by
  rw [(answerIn_spelled h).1 seed (reading_of_held hheld)]
  rfl

theorem parts_of_withheld (h : Spelling hash text) (hwithheld : Withheld w b hash) :
    (answerIn w b text).parts = ("500", "not found seed", none) := by
  rw [(answerIn_spelled h).2 (reading_of_withheld hwithheld)]
  rfl

theorem parts_invalid_iff : (answerIn w b text).parts = ("500", "invalid hash", none) ↔ ¬IsHashText text := by
  constructor
  · intro hparts hspells
    obtain ⟨hash, hspelling⟩ := exists_spelling_iff.2 hspells
    rcases held_or_withheld w b hash with ⟨seed, hheld⟩ | hwithheld
    · rw [parts_of_held hspelling hheld] at hparts
      simp at hparts
    · rw [parts_of_withheld hspelling hwithheld] at hparts
      simp at hparts
  · intro hno
    rw [answerIn_of_unspelled hno]
    rfl

theorem answerIn_congr {text' : String} (h : Spelling hash text) (h' : Spelling hash text') :
    answerIn w b text = answerIn w b text' := by
  rcases held_or_withheld w b hash with ⟨seed, hheld⟩ | hwithheld
  · have hreading := reading_of_held hheld
    rw [(answerIn_spelled h).1 seed hreading, (answerIn_spelled h').1 seed hreading]
  · have hreading := reading_of_withheld hwithheld
    rw [(answerIn_spelled h).2 hreading, (answerIn_spelled h').2 hreading]

theorem held_of_code (hcode : (answerIn w b text).code = "200") :
    ∃ hash seed, Spelling hash text ∧ Held w b hash seed ∧
      (answerIn w b text).data? = some (Hex.encode seed.bytes) := by
  by_cases hspells : IsHashText text
  · obtain ⟨hash, hspelling⟩ := exists_spelling_iff.2 hspells
    rcases held_or_withheld w b hash with ⟨seed, hheld⟩ | hwithheld
    · exact ⟨hash, seed, hspelling, hheld, congrArg (·.2.2) (parts_of_held hspelling hheld)⟩
    · have hother := congrArg Prod.fst (parts_of_withheld hspelling hwithheld)
      simp [SeedAnswer.parts, hcode] at hother
  · rw [answerIn_of_unspelled hspells] at hcode
    simp [SeedAnswer.code] at hcode

theorem encode_seed (seed : Seed) : (Hex.encode seed.bytes).length = 64 ∧
    (∀ c ∈ (Hex.encode seed.bytes).toList, c ∈ Hex.alphabet ∧ c.toLower = c) ∧
    Hex.decode (Hex.encode seed.bytes).toList = some seed.bytes := by
  have hdecode := Hex.decode_digits seed.bytes
  have hlower := Hex.decode_eq_some_iff.1 hdecode
  rw [Hex.encode, String.toList_ofList, String.length_ofList, Hex.length_digits, seed.length_bytes]
  refine ⟨rfl, fun c hc => ⟨Hex.mem_alphabet_of_decode hdecode c hc, ?_⟩, hdecode⟩
  exact List.map_inj_left.1 (hlower.trans (List.map_id' _).symm) c hc

/-- The look-up answers for hashes, not for texts: all spellings of a hash are answered for alike, with
its seed in 64 lower-case digits if the store holds one and tells it. -/
theorem answered_by_hash (w : Conditions) (b : Backend) :
    (∀ text, (answerIn w b text).parts = ("500", "invalid hash", none) ↔ ¬IsHashText text) ∧
    (∀ text, IsHashText text ↔ ∃ hash, Spelling hash text) ∧
    (∀ text hash hash', Spelling hash text → Spelling hash' text → hash = hash') ∧
    (∀ text hash seed, Spelling hash text → Held w b hash seed →
      (answerIn w b text).parts = ("200", "ok", some (Hex.encode seed.bytes))) ∧
    (∀ text hash, Spelling hash text → Withheld w b hash →
      (answerIn w b text).parts = ("500", "not found seed", none)) ∧
    (∀ hash, Withheld w b hash ↔ ∀ seed, ¬Held w b hash seed) ∧
    (∀ text text' hash, Spelling hash text → Spelling hash text' → answerIn w b text = answerIn w b text') ∧
    ∀ text, (answerIn w b text).code = "200" → ∃ hash seed data, Spelling hash text ∧ Held w b hash seed ∧
      (answerIn w b text).data? = some data ∧ data.length = 64 ∧
      (∀ c ∈ data.toList, c ∈ Hex.alphabet ∧ c.toLower = c) ∧ Hex.decode data.toList = some seed.bytes := by
  refine ⟨fun text => parts_invalid_iff, fun text => exists_spelling_iff.symm, fun text hash hash' => spelling_inj,
    fun text hash seed => parts_of_held, fun text hash => parts_of_withheld, fun hash => withheld_iff,
    fun text text' hash => answerIn_congr, fun text hcode => ?_⟩
  obtain ⟨hash, seed, hspelling, hheld, hdata⟩ := held_of_code hcode
  exact ⟨hash, seed, _, hspelling, hheld, hdata, encode_seed seed⟩

def oneSeed : Backend :=
  ((Backend.memory .empty).perform (.set (Repository.key .seed (.fill 32 0xab)) (FixedBytes.fill 32 7).bytes)).2

def spacedText : String :=
  .ofList (['\u3000', ' '] ++ (['0', 'X'] ++ (List.replicate 32 ['A', 'b']).flatten ++ ['\n']))

theorem spelling_spacedText : Spelling (.fill 32 0xab) spacedText := by
  have htext : spacedText.toList =
      ['\u3000', ' '] ++ (['0', 'X'] ++ (List.replicate 32 ['A', 'b']).flatten ++ ['\n']) :=
    String.toList_ofList
  refine ⟨['0', 'X'], (List.replicate 32 ['A', 'b']).flatten, ?_, by decide, by decide⟩
  rw [htext]
  refine .mk _ _ _ ?front ?back ?first ?last <;> simp [Text.isBlank, Text.blankRanges]

theorem answered_by_hash_spaced :
    Spelling (.fill 32 0xab) spacedText ∧ Held (.fair fun _ => 0) oneSeed (.fill 32 0xab) (.fill 32 7) ∧
    (answerIn (.fair fun _ => 0) oneSeed spacedText).parts =
      ("200", "ok", some (Hex.encode (FixedBytes.fill 32 7).bytes)) ∧
    Withheld ⟨fun _ => .failed .poisoned false, fun _ => 0⟩ oneSeed (.fill 32 0xab) ∧
    (answerIn ⟨fun _ => .failed .poisoned false, fun _ => 0⟩ oneSeed spacedText).parts =
      ("500", "not found seed", none) := by
  have hheld : Held (.fair fun _ => 0) oneSeed (.fill 32 0xab) (.fill 32 7) := by
    refine ⟨rfl, ?_⟩
    rw [oneSeed, Repository.get?_set_self]
  have hwithheld : Withheld ⟨fun _ => .failed .poisoned false, fun _ => 0⟩ oneSeed (.fill 32 0xab) :=
    .failed .poisoned false rfl
  obtain ⟨-, -, -, hfound, -⟩ := answered_by_hash (.fair fun _ => 0) oneSeed
  obtain ⟨-, -, -, -, hlost, -⟩ := answered_by_hash ⟨fun _ => .failed .poisoned false, fun _ => 0⟩ oneSeed
  exact ⟨spelling_spacedText, hheld, hfound _ _ _ spelling_spacedText hheld, hwithheld,
    hlost _ _ spelling_spacedText hwithheld⟩

end Answers

end CommitReveal.Api
