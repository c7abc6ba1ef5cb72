import CommitReveal.Proofs.Lookup
import CommitReveal.Proofs.Obligation
import CommitReveal.Repository.Run

/-! What a store holds about a hash, and what the repository's reading operations make of it. A write
to one field of one hash touches no other. -/
namespace CommitReveal.Repository

open Store (Backend Entry StoreError)

variable {b : Backend} {h : Hash}

/-- What an operation finds in a store as it stands. -/
def peek (a : Action α) (b : Backend) : Except StoreError α :=
  (runOn 0 a.run b).1

/-- Something is stored as the seed of a hash. -/
def Seeded (b : Backend) (h : Hash) : Prop :=
  (b.get? (key .seed h)).isSome

/-- A hash stands in the pending set. -/
def Marked (b : Backend) (h : Hash) : Prop :=
  (b.get? (key .pending h)).isSome

def Recorded (b : Backend) (h : Hash) (r : Option CommitRecord) : Prop :=
  b.get? (key .record h) = r.map CommitRecord.encode

theorem peek_get_bind {α : Type} (k : Bytes) (f : Option Bytes → Action α) (b : Backend) :
    peek (get k >>= f) b = peek (f (b.get? k)) b := by
  cases b <;> rfl

theorem peek_isPending : peek (isPending h) b = .ok (b.get? (key .pending h)).isSome := by
  unfold isPending has
  rw [peek_get_bind]
  rfl

theorem peek_isPending_iff : peek (isPending h) b = .ok true ↔ Marked b h := by
  rw [peek_isPending, Except.ok.injEq]
  exact Iff.rfl

theorem peek_status_congr {b' : Backend} (hsame : b.get? (key .record h) = b'.get? (key .record h)) :
    peek (status h) b = peek (status h) b' := by
  unfold status record
  rw [bind_assoc, peek_get_bind, peek_get_bind, hsame]
  cases b'.get? (key .record h) with
  | none => rfl
  | some bytes => cases hread : recordOfBytes bytes <;> simp only [hread] <;> rfl

theorem hashOfBytes_bytes (hash : Hash) : hashOfBytes hash.bytes = .ok hash := by
  simp [hashOfBytes]

theorem bytes_of_hashOfBytes {bytes : Bytes} {hash : Hash} (hread : hashOfBytes bytes = .ok hash) :
    bytes = hash.bytes := by
  unfold hashOfBytes at hread
  split at hread
  · rename_i read hbytes
    cases hread
    exact FixedBytes.ofBytes?_eq_some_iff.1 hbytes
  · cases hread

theorem recordOfBytes_encode (r : CommitRecord) : recordOfBytes r.encode = .ok r := by
  have hdecode := r.decode_encode_append []
  rw [List.append_nil] at hdecode
  simp [recordOfBytes, hdecode, Except.mapError]

theorem encode_inj {r r' : CommitRecord} (hr : r.encode = r'.encode) : r = r' := by
  have hread : recordOfBytes r.encode = .ok r' := by
    rw [hr, recordOfBytes_encode]
  rw [recordOfBytes_encode] at hread
  exact Except.ok.inj hread

theorem peek_seed {seed : Seed} (hget : b.get? (key .seed h) = some seed.bytes) :
    peek (Repository.seed h) b = .ok (some seed) := by
  unfold Repository.seed getHash
  rw [peek_get_bind, hget]
  simp only [hashOfBytes_bytes]
  rfl

theorem peek_seed_none (hget : b.get? (key .seed h) = none) :
    peek (Repository.seed h) b = .ok none := by
  unfold Repository.seed getHash
  rw [peek_get_bind, hget]
  rfl

theorem peek_record {r : CommitRecord} (hget : b.get? (key .record h) = some r.encode) :
    peek (record h) b = .ok (some r) := by
  unfold record
  rw [peek_get_bind, hget]
  simp only [recordOfBytes_encode]
  rfl

theorem peek_status_recorded {r : Option CommitRecord} (hr : Recorded b h r) :
    peek (status h) b = .ok (r.map (·.status)) := by
  unfold Recorded at hr
  unfold status record
  rw [bind_assoc, peek_get_bind, hr]
  cases r with
  | none => rfl
  | some r =>
    simp only [Option.map_some, recordOfBytes_encode]
    rfl

section Finding

open Program

variable {E : Surroundings interface} {σ : E.State} {P : E.State → Prop} {R : StoreError → E.State → Prop}

theorem finds_record {r : Option CommitRecord}
    (hget : Attempts E (get (key .record h)) (fun value τ => value = r.map CommitRecord.encode ∧ P τ) R σ) :
    Attempts E (record h) (fun found τ => found = r ∧ P τ) R σ := by
  unfold record
  refine attempts_bind.2 (hget.imp (fun value τ hvalue => ?_) fun _ _ => id)
  obtain ⟨rfl, hτ⟩ := hvalue
  cases r with
  | none => exact ⟨rfl, hτ⟩
  | some r =>
    simp only [Option.map_some, recordOfBytes_encode]
    exact ⟨rfl, hτ⟩

theorem finds_status {r : Option CommitRecord}
    (hrecord : Attempts E (record h) (fun found τ => found = r ∧ P τ) R σ) :
    Attempts E (status h) (fun st τ => st = r.map (·.status) ∧ P τ) R σ := by
  unfold status
  refine attempts_bind.2 (hrecord.imp (fun found τ hfound => ?_) fun _ _ => id)
  obtain ⟨rfl, hτ⟩ := hfound
  exact ⟨rfl, hτ⟩

theorem finds_seed {seed : Option Seed}
    (hget : Attempts E (get (key .seed h)) (fun value τ => value = seed.map (·.bytes) ∧ P τ) R σ) :
    Attempts E (Repository.seed h) (fun found τ => found = seed ∧ P τ) R σ := by
  unfold Repository.seed getHash
  refine attempts_bind.2 (hget.imp (fun value τ hvalue => ?_) fun _ _ => id)
  obtain ⟨rfl, hτ⟩ := hvalue
  cases seed with
  | none => exact ⟨rfl, hτ⟩
  | some seed =>
    simp only [Option.map_some, hashOfBytes_bytes]
    exact ⟨rfl, hτ⟩

end Finding

theorem key_ne {f g : Field} (hfg : f ≠ g) (h k : Hash) : key f h ≠ key g k := by
  intro heq
  exact hfg (key_inj.1 heq).1

theorem get?_set_key (b : Backend) (f g : Field) (h k : Hash) (value : Bytes) :
    (b.perform (.set (key f h) value)).2.get? (key g k) =
      if g = f ∧ k = h then some value else b.get? (key g k) := by
  rw [Backend.get?_set]
  simp only [key_inj]

theorem get?_delete_key (b : Backend) (f g : Field) (h k : Hash) :
    (b.perform (.delete (key f h))).2.get? (key g k) =
      if g = f ∧ k = h then none else b.get? (key g k) := by
  rw [Backend.get?_delete]
  simp only [key_inj]

theorem get?_set_self (b : Backend) (f : Field) (h : Hash) (value : Bytes) :
    (b.perform (.set (key f h) value)).2.get? (key f h) = some value := by
  rw [get?_set_key, if_pos ⟨rfl, rfl⟩]

theorem get?_set_field {f g : Field} (hfg : g ≠ f) (b : Backend) (h k : Hash) (value : Bytes) :
    (b.perform (.set (key f h) value)).2.get? (key g k) = b.get? (key g k) := by
  rw [get?_set_key, if_neg fun heq => hfg heq.1]

theorem get?_delete_self (b : Backend) (f : Field) (h : Hash) :
    (b.perform (.delete (key f h))).2.get? (key f h) = none := by
  rw [get?_delete_key, if_pos ⟨rfl, rfl⟩]

theorem get?_delete_field {f g : Field} (hfg : g ≠ f) (b : Backend) (h k : Hash) :
    (b.perform (.delete (key f h))).2.get? (key g k) = b.get? (key g k) := by
  rw [get?_delete_key, if_neg fun heq => hfg heq.1]

theorem get?_set_cursor (b : Backend) (g : Field) (k : Hash) (value : Bytes) :
    (b.perform (.set cursorKey value)).2.get? (key g k) = b.get? (key g k) := by
  rw [Backend.get?_set, if_neg (key_ne_cursorKey g k)]

def placeOf : Option Bytes → Except StoreError (Option Word)
  | none => .ok none
  | some bytes => (cursorOfBytes bytes).map some

theorem placeOf_ofNatBE (c : Word) : placeOf (some (Bytes.ofNatBE 8 c.toNat)) = .ok (some c) := by
  simp [placeOf, cursorOfBytes, Bytes.toNatBE_ofNatBE, Except.map]

theorem run_cursor : cursor.run =
    .ask (.call (.get cursorKey)) fun answer => .done (answer.bind placeOf) := by
  have hread (x : Except StoreError Word) :
      (do return some (← liftM x) : Action (Option Word)).run = .done (x.map some) := by
    cases x <;> rfl
  refine congrArg (Program.ask _) (funext fun answer => ?_)
  cases answer with
  | error cause => rfl
  | ok value =>
    cases value with
    | none => rfl
    | some bytes => exact hread (cursorOfBytes bytes)

theorem peek_cursor (b : Backend) : peek cursor b = placeOf (b.get? cursorKey) := by
  unfold peek
  rw [run_cursor]
  cases b <;> rfl

theorem mapM_cons_eq_ok {ε α β : Type} {f : α → Except ε β} {a : α} {as : List α} {bs : List β}
    (hmap : (a :: as).mapM f = .ok bs) :
    ∃ b rest, f a = .ok b ∧ as.mapM f = .ok rest ∧ bs = b :: rest := by
  rw [List.mapM_cons] at hmap
  cases ha : f a with
  | error e => simp [ha, bind, Except.bind] at hmap
  | ok b =>
    cases hrest : as.mapM f with
    | error e => simp [ha, hrest, bind, Except.bind] at hmap
    | ok rest =>
      simp only [ha, hrest, bind, Except.bind, pure, Except.pure, Except.ok.injEq] at hmap
      exact ⟨b, rest, rfl, rfl, hmap.symm⟩

theorem exists_of_mem_mapM {ε α β : Type} {f : α → Except ε β} {as : List α} {bs : List β} {b : β}
    (hmap : as.mapM f = .ok bs) (hb : b ∈ bs) : ∃ a ∈ as, f a = .ok b := by
  induction as generalizing bs with
  | nil =>
    cases hmap
    cases hb
  | cons a as ih =>
    obtain ⟨first, rest, ha, hrest, rfl⟩ := mapM_cons_eq_ok hmap
    rcases List.mem_cons.1 hb with rfl | hb
    · exact ⟨a, List.mem_cons_self, ha⟩
    · obtain ⟨a', ha', hfa'⟩ := ih hrest hb
      exact ⟨a', List.mem_cons_of_mem _ ha', hfa'⟩

theorem pairwise_of_mapM {ε α β : Type} {f : α → Except ε β} {R : α → α → Prop} {S : β → β → Prop}
    (hf : ∀ a a' b b', R a a' → f a = .ok b → f a' = .ok b' → S b b') {as : List α} {bs : List β}
    (hmap : as.mapM f = .ok bs) (hR : as.Pairwise R) : bs.Pairwise S := by
  induction as generalizing bs with
  | nil =>
    cases hmap
    exact .nil
  | cons a as ih =>
    obtain ⟨hhead, htail⟩ := List.pairwise_cons.1 hR
    obtain ⟨first, rest, ha, hrest, rfl⟩ := mapM_cons_eq_ok hmap
    refine List.pairwise_cons.2 ⟨fun b hb => ?_, ih hrest htail⟩
    obtain ⟨a', ha', hfa'⟩ := exists_of_mem_mapM hrest hb
    exact hf a a' first b (hhead a' ha') ha hfa'

theorem key_of_entry {k : Bytes} (hstart : k.startsWith Field.pending.mark)
    (hhash : hashOfBytes (k.drop Field.pending.mark.length) = .ok h) : k = key .pending h := by
  obtain ⟨rest, rfl⟩ := List.isPrefixOf_iff_prefix.1 hstart
  rw [List.drop_left] at hhash
  rw [bytes_of_hashOfBytes hhash]
  rfl

theorem marked_of_entry {e : Entry}
    (he : e ∈ (b.perform (.scan Field.pending.mark)).1)
    (hhash : hashOfBytes (e.1.drop Field.pending.mark.length) = .ok h) : Marked b h := by
  obtain ⟨hstart, hget⟩ := Backend.mem_scan he
  unfold Marked
  rw [← key_of_entry hstart hhash, hget]
  rfl

theorem mapM_ok {ε α β : Type} {f : α → Except ε β} {as : List α} (hf : ∀ a ∈ as, ∃ b, f a = .ok b) :
    ∃ bs, as.mapM f = .ok bs ∧ ∀ b, b ∈ bs ↔ ∃ a ∈ as, f a = .ok b := by
  induction as with
  | nil => exact ⟨[], rfl, fun b => by simp⟩
  | cons a as ih =>
    obtain ⟨first, hfirst⟩ := hf a List.mem_cons_self
    obtain ⟨rest, hrest, hmem⟩ := ih fun a' ha' => hf a' (List.mem_cons_of_mem _ ha')
    refine ⟨first :: rest, ?_, fun b => ?_⟩
    · rw [List.mapM_cons, hfirst, hrest]
      rfl
    · simp only [List.mem_cons, exists_eq_or_imp, hmem, hfirst, Except.ok.injEq]
      rw [eq_comm]

theorem peek_pendingHashes_eq (b : Backend) :
    peek pendingHashes b = (b.perform (.scan Field.pending.mark)).1.mapM fun e =>
      hashOfBytes (e.1.drop Field.pending.mark.length) := by
  cases b <;> rfl

/-- If the keys are those of hashes and of the cursor, the pending set is just what is marked. -/
theorem peek_pendingHashes
    (hkeys : ∀ k, (b.get? k).isSome → (∃ field h, k = key field h) ∨ k = cursorKey) :
    ∃ hashes, peek pendingHashes b = .ok hashes ∧ ∀ h, h ∈ hashes ↔ Marked b h := by
  have hentry : ∀ e ∈ (b.perform (.scan Field.pending.mark)).1, ∃ h,
      hashOfBytes (e.1.drop Field.pending.mark.length) = .ok h := by
    intro e he
    obtain ⟨hstart, hget⟩ := Backend.mem_scan he
    obtain ⟨rest, hrest⟩ := List.isPrefixOf_iff_prefix.1 hstart
    rcases hkeys e.1 (by rw [hget]; rfl) with ⟨field, h, hkey⟩ | hkey
    · refine ⟨h, ?_⟩
      rw [hkey, key, length_mark, ← length_mark field, List.drop_left, hashOfBytes_bytes]
    · rw [hkey] at hrest
      cases hrest
  obtain ⟨hashes, hmap, hmem⟩ := mapM_ok hentry
  refine ⟨hashes, ?_, fun h => ?_⟩
  · rw [peek_pendingHashes_eq, hmap]
  · rw [hmem]
    constructor
    · rintro ⟨e, he, hhash⟩
      exact marked_of_entry he hhash
    · intro hm
      obtain ⟨value, hvalue⟩ := Option.isSome_iff_exists.1 hm
      have hstart : (key .pending h).startsWith Field.pending.mark :=
        List.isPrefixOf_iff_prefix.2 (List.prefix_append _ _)
      refine ⟨_, Backend.mem_scan_of hstart hvalue, ?_⟩
      rw [key, List.drop_left, hashOfBytes_bytes]

end CommitReveal.Repository
