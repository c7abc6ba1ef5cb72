import CommitReveal.Proofs.Announcement
import CommitReveal.Proofs.Cards

/-! The repository's operations in a store that nobody else touches: each ends with the cards as they
should be, or has failed. What may be written as a record is left open, so that a rule about records can
be checked here once for all who call these operations. -/
namespace CommitReveal.Agent

open Program
open Repository (Field key key_inj Recorded Card Shelf Stands)

variable {i : Nat} {σ τ : Shared} {h : Hash} {α β : Type} {A : Hash → CommitRecord → Shared → Prop} {G : Prop}
  {shelf : Shelf}

/-- From one state to a later one, task `i` has done nothing but call the store. -/
structure Beside (i : Nat) (σ τ : Shared) : Prop where
  memory : τ.memory = σ.memory
  trace : ∃ calls : Trace, τ.trace = calls ++ σ.trace ∧
    ∀ e ∈ calls, ∃ (r : Repository.Request) (a : r.Answer), e = .answered i (.store r) a

theorem Beside.refl (i : Nat) (σ : Shared) : Beside i σ σ :=
  ⟨rfl, [], rfl, fun _ he => nomatch he⟩

theorem Beside.trans {υ : Shared} (hb : Beside i σ τ) (hb' : Beside i τ υ) : Beside i σ υ := by
  obtain ⟨calls, htrace, hcalls⟩ := hb.trace
  obtain ⟨calls', htrace', hcalls'⟩ := hb'.trace
  refine ⟨hb'.memory.trans hb.memory, calls' ++ calls, by rw [htrace', htrace, List.append_assoc], ?_⟩
  intro e he
  rcases List.mem_append.1 he with he | he
  · exact hcalls' e he
  · exact hcalls e he

theorem Beside.suffix (hb : Beside i σ τ) : σ.trace <:+ τ.trace := by
  obtain ⟨calls, htrace, -⟩ := hb.trace
  exact ⟨calls, htrace.symm⟩

theorem beside_served {r : Repository.Request} {a : r.Answer} (hserved : Served (.store r) a σ τ) :
    Beside i σ (τ.note (.answered i (.store r) a)) := by
  refine ⟨?_, [.answered i (.store r) a], congrArg _ hserved.trace, fun e he => ?_⟩
  · cases r with
    | call c => rcases hserved with ⟨_, _, rfl⟩ | ⟨_, rfl⟩ <;> rfl
    | clock =>
      obtain rfl : τ = σ := hserved
      rfl
  · exact ⟨r, a, List.mem_singleton.1 he⟩

def Request.SparesCards : Request → Prop
  | .store (.call (.set k _)) => (∃ h, k = key .tx h) ∨ k = Repository.cursorKey
  | .store (.call (.delete _)) => False
  | _ => True

theorem stands_served {r : Request} {a : r.Answer} (hs : Stands σ.store shelf) (hr : r.SparesCards)
    (hserved : Served r a σ τ) : Stands τ.store shelf := by
  rcases hserved.store with hsame | ⟨c, rfl, hstore⟩
  · rwa [hsame]
  · rw [hstore]
    cases c with
    | get k => rwa [Store.Backend.perform_get]
    | scan start => rwa [Store.Backend.perform_scan]
    | delete k => exact hr.elim
    | set k value =>
      intro h
      refine (hs h).of_same fun field hfield => ?_
      rcases hr with ⟨h', rfl⟩ | rfl
      · exact Repository.get?_set_field hfield ..
      · exact Repository.get?_set_cursor ..

/-- What may be asked at the desk: no scan, and only such records as `A` lets pass. -/
def AtDesk (A : Hash → CommitRecord → Shared → Prop) : Repository.Request → Shared → Prop
  | .call (.set k value), σ => ∀ h r, k = key .record h → value = r.encode → A h r σ
  | .call (.scan _), _ => False
  | _, _ => True

/-- The store as task `i` has it to itself. If `G` holds, no call fails. -/
abbrev desk (i : Nat) (A : Hash → CommitRecord → Shared → Prop) (G : Prop) :
    Surroundings Repository.interface where
  State := Shared
  Allows := AtDesk A
  Meanwhile _ σ τ := τ = σ
  Served r a σ υ := ∃ τ, Agent.Served (.store r) a σ τ ∧ υ = τ.note (.answered i (.store r) a) ∧
    (G → storeFailed ⟨.store r, a⟩ = false)

theorem desk_carries : (desk i A G).Carries (Beside i) where
  right _ := Beside.refl i _
  trans := Beside.trans
  meanwhile := by
    rintro r σ τ - rfl
    exact Beside.refl i _
  served := by
    rintro r a σ τ - ⟨υ, hserved, rfl, -⟩
    exact beside_served hserved

def barring {S : Type} (G : Prop) : Store.StoreError → S → Prop :=
  fun _ _ => ¬G

theorem desk_andThen {x : Repository.Action α} {f : α → Repository.Action β} {P : α → Shared → Prop}
    {Q : β → Shared → Prop} (hx : Attempts (desk i A G) x P (barring G) σ)
    (hf : ∀ a τ, P a τ → Beside i σ τ → Attempts (desk i A G) (f a) Q (barring G) τ) :
    Attempts (desk i A G) (x >>= f) Q (barring G) σ :=
  Attempts.andThen desk_carries (Beside.refl i σ) hx hf

theorem desk_call {c : Store.Call} {Q : c.Result → Shared → Prop} (hallows : AtDesk A (.call c) σ)
    (hQ : ∀ e, Q (σ.store.perform c).1 (({ σ with store := (σ.store.perform c).2 } : Shared).note e)) :
    Attempts (desk i A G)
      (ExceptT.mk (Program.request (I := Repository.interface) (.call c)) : Repository.Action c.Result)
      Q (barring G) σ := by
  rintro τ rfl
  refine ⟨hallows, fun a υ hυ => ?_⟩
  obtain ⟨ω, hserved, rfl, hgood⟩ := hυ
  have hfails {cause : Store.StoreError} (ha : a = .error cause) : ¬G := by
    subst ha
    exact fun hG => nomatch hgood hG
  rcases hserved with ⟨cause, ha, -⟩ | ⟨ha | ⟨cause, ha⟩, rfl⟩
  · rw [ha]
    exact hfails ha
  · rw [ha]
    exact hQ _
  · rw [ha]
    exact hfails ha

theorem desk_get (k : Bytes) : Attempts (desk i A G) (Repository.get k)
    (fun value τ => value = σ.store.get? k ∧ τ.store = σ.store) (barring G) σ :=
  desk_call trivial fun _ => ⟨rfl, congrArg Prod.snd (σ.store.perform_get k)⟩

theorem desk_now : Attempts (desk i A G) Repository.now (fun _ τ => τ.store = σ.store) (barring G) σ := by
  refine (attempts_lift (Program.request (I := Repository.interface) .clock)).2 ?_
  rintro τ rfl
  refine ⟨trivial, fun a υ hυ => ?_⟩
  obtain ⟨ω, rfl, rfl, -⟩ := hυ
  rfl

theorem desk_record (hs : Stands σ.store shelf) : Attempts (desk i A G) (Repository.record h)
    (fun r τ => r = (shelf h).record ∧ τ.store = σ.store) (barring G) σ := by
  refine Repository.finds_record ((desk_get _).imp (fun value τ hget => ?_) fun _ _ => id)
  exact ⟨hget.1.trans (hs h).record, hget.2⟩

theorem desk_status (hs : Stands σ.store shelf) : Attempts (desk i A G) (Repository.status h)
    (fun st τ => st = (shelf h).status ∧ τ.store = σ.store) (barring G) σ :=
  Repository.finds_status (desk_record hs)

theorem desk_seed (hs : Stands σ.store shelf) : Attempts (desk i A G) (Repository.seed h)
    (fun seed τ => seed = (shelf h).seed ∧ τ.store = σ.store) (barring G) σ := by
  refine Repository.finds_seed ((desk_get _).imp (fun value τ hget => ?_) fun _ _ => id)
  exact ⟨hget.1.trans (hs h).seed, hget.2⟩

theorem desk_isPending (hs : Stands σ.store shelf) : Attempts (desk i A G) (Repository.isPending h)
    (fun pending τ => pending = (shelf h).pending ∧ τ.store = σ.store) (barring G) σ := by
  unfold Repository.isPending Repository.has
  refine desk_andThen (desk_get _) ?_
  rintro value τ ⟨rfl, hτ⟩ -
  exact ⟨(hs h).pending, hτ⟩

theorem desk_recordOr (hs : Stands σ.store shelf) (st : Status) :
    Attempts (desk i A G) (Repository.recordOr h st)
      (fun r τ => (∃ time, r = (shelf h).record.getD ⟨st, none, time⟩) ∧ τ.store = σ.store)
      (barring G) σ := by
  unfold Repository.recordOr
  refine desk_andThen (desk_record hs) ?_
  rintro r τ ⟨rfl, hτ⟩ -
  cases hcard : (shelf h).record with
  | none =>
    refine desk_andThen desk_now ?_
    intro time υ hυ _
    exact ⟨⟨time, rfl⟩, hυ.trans hτ⟩
  | some r => exact ⟨⟨0, rfl⟩, hτ⟩

def Turned (shelf : Shelf) (h : Hash) (op : Int64 → Card → Card) (τ : Shared) : Prop :=
  ∃ time, Stands τ.store (Function.update shelf h (op time (shelf h)))

/-- The record that an operation would write may be written, whenever the task comes to it. -/
def Lets (i : Nat) (A : Hash → CommitRecord → Shared → Prop) (σ : Shared) (shelf : Shelf) (h : Hash)
    (op : Int64 → Card → Card) : Prop :=
  ∀ time r τ, Beside i σ τ → Recorded τ.store h (shelf h).record →
    (op time (shelf h)).record = some r → A h r τ

theorem desk_putRecord (hs : Stands σ.store shelf) {r : CommitRecord} (hA : A h r σ) :
    Attempts (desk i A G) (Repository.putRecord h r)
      (fun _ τ => Stands τ.store (Function.update shelf h { shelf h with record := some r }))
      (barring G) σ := by
  refine desk_call (fun h' r' hkey hvalue => ?_) fun _ => hs.set_record r
  obtain rfl := (key_inj.1 hkey).2
  obtain rfl := Repository.encode_inj hvalue
  exact hA

theorem desk_setStatus (hs : Stands σ.store shelf) (st : Status)
    (hA : Lets i A σ shelf h (Card.setStatus st)) :
    Attempts (desk i A G) (Repository.setStatus h st)
      (fun _ τ => Turned shelf h (Card.setStatus st) τ) (barring G) σ := by
  unfold Repository.setStatus
  refine desk_andThen (desk_recordOr hs st) ?_
  rintro r τ ⟨⟨first, rfl⟩, hτ⟩ hbeside
  split
  · rename_i hclosed
    -- nothing is written, and the card says so too
    refine ⟨first, ?_⟩
    rw [Card.setStatus_of_closed hclosed, Function.update_eq_self, hτ]
    exact hs
  · rename_i hopen
    refine desk_andThen desk_now ?_
    intro time υ hυ hbeside'
    have hcard : (shelf h).setStatus st time = _ := Card.setStatus_of_open hopen
    have hsυ : Stands υ.store shelf := by rwa [hυ, hτ]
    have hput := desk_putRecord (i := i) (G := G) hsυ
      (hA time _ υ (hbeside.trans hbeside') (hsυ h).record (by rw [hcard]))
    refine desk_andThen hput fun _ ω hω _ => ?_
    exact ⟨time, by rwa [hcard]⟩

theorem desk_setCommitBlock (hs : Stands σ.store shelf) (block : Word)
    (hA : Lets i A σ shelf h (Card.setCommitBlock block)) :
    Attempts (desk i A G) (Repository.setCommitBlock h block)
      (fun _ τ => Turned shelf h (Card.setCommitBlock block) τ) (barring G) σ := by
  unfold Repository.setCommitBlock
  refine desk_andThen (desk_recordOr hs .committed) ?_
  rintro r τ ⟨⟨time, rfl⟩, hτ⟩ hbeside
  have hcard : (shelf h).setCommitBlock block time = _ := Card.setCommitBlock_eq
  have hsτ : Stands τ.store shelf := by rwa [hτ]
  split
  · rename_i hknown
    refine ⟨time, ?_⟩
    rwa [Card.setCommitBlock_of_known hknown, Function.update_eq_self]
  · refine (desk_putRecord hsτ (hA time _ τ hbeside (hsτ h).record (by rw [hcard]))).imp ?_
      fun _ _ => id
    intro _ υ hυ
    exact ⟨time, by rwa [hcard]⟩

theorem desk_setSeed (hs : Stands σ.store shelf) (seed : Seed) :
    Attempts (desk i A G) (Repository.set (key .seed h) seed.bytes)
      (fun _ τ => Stands τ.store (Function.update shelf h { shelf h with seed := some seed }))
      (barring G) σ := by
  refine desk_call (fun h' r' hkey _ => ?_) fun _ => hs.set_seed seed
  exact absurd (key_inj.1 hkey).1 (by decide)

theorem desk_storeSeed (hs : Stands σ.store shelf) (seed : Seed)
    (hA : Lets i A σ shelf h (Card.storeSeed seed)) :
    Attempts (desk i A G) (Repository.storeSeed h seed)
      (fun _ τ => Turned shelf h (Card.storeSeed seed) τ) (barring G) σ := by
  unfold Repository.storeSeed
  refine desk_andThen (desk_setSeed hs seed) ?_
  intro _ τ hτ hbeside
  refine desk_andThen (desk_record hτ) ?_
  rintro r υ ⟨rfl, hυ⟩ hbeside'
  rw [Function.update_self]
  have hsυ : Stands υ.store (Function.update shelf h { shelf h with seed := some seed }) := hυ ▸ hτ
  dsimp only
  cases hrecord : (shelf h).record with
  | some r =>
    refine ⟨0, ?_⟩
    have hcard : (shelf h).storeSeed seed 0 = { shelf h with seed := some seed } := by
      simp only [Card.storeSeed, hrecord, Option.getD_some]
    rwa [hcard]
  | none =>
    refine desk_andThen desk_now ?_
    intro time ω hω hbeside''
    have hcard : (shelf h).storeSeed seed time =
        { shelf h with seed := some seed, record := some ⟨.created, none, time⟩ } := by
      simp only [Card.storeSeed, hrecord, Option.getD_none]
    have hsω : Stands ω.store (Function.update shelf h { shelf h with seed := some seed }) := hω ▸ hsυ
    have hold := (hsω h).record
    rw [Function.update_self] at hold
    have hput := desk_putRecord (h := h) (i := i) (G := G) hsω
      (hA time ⟨.created, none, time⟩ ω ((hbeside.trans hbeside').trans hbeside'') hold (by rw [hcard]))
    refine hput.imp (fun _ ρ hρ => ⟨time, ?_⟩) fun _ _ => id
    rw [Function.update_self, Function.update_idem] at hρ
    rwa [hcard]

theorem desk_markPending (hs : Stands σ.store shelf) :
    Attempts (desk i A G) (Repository.markPending h)
      (fun _ τ => Stands τ.store (Function.update shelf h (shelf h).markPending)) (barring G) σ := by
  unfold Repository.markPending
  refine desk_andThen (desk_status hs) ?_
  rintro st τ ⟨rfl, hτ⟩ -
  have hsτ : Stands τ.store shelf := hτ ▸ hs
  have mark (hopen : (shelf h).finished = false) : Attempts (desk i A G)
      (do Repository.set (key .pending h) [1]; return true)
      (fun _ τ => Stands τ.store (Function.update shelf h (shelf h).markPending)) (barring G) τ := by
    have hset : Attempts (desk i A G) (Repository.set (key .pending h) [1])
        (fun _ τ => Stands τ.store (Function.update shelf h (shelf h).markPending)) (barring G) τ := by
      refine desk_call (fun h' r' hkey _ => absurd (key_inj.1 hkey).1 (by decide)) fun _ => ?_
      rw [Card.markPending, hopen]
      exact hsτ.set_pending [1]
    exact desk_andThen hset fun _ _ hυ _ => hυ
  cases hst : (shelf h).status with
  | none => exact mark (by simp [Card.finished, hst])
  | some st =>
    dsimp only
    split
    · rename_i hfinal
      have hsame : (shelf h).markPending = shelf h := by
        rw [Card.markPending, if_pos (by simpa [Card.finished, hst] using hfinal)]
      rw [attempts_pure, hsame, Function.update_eq_self]
      exact hsτ
    · rename_i hopen
      exact mark (by simpa [Card.finished, hst] using hopen)

theorem desk_clearPending (hs : Stands σ.store shelf) :
    Attempts (desk i A G) (Repository.clearPending h)
      (fun _ τ => Stands τ.store (Function.update shelf h (shelf h).clearPending)) (barring G) σ :=
  desk_call trivial fun _ => hs.delete_pending

theorem desk_finish (hs : Stands σ.store shelf) (st : Status)
    (hA : Lets i A σ shelf h (Card.finish st)) :
    Attempts (desk i A G) (do Repository.clearPending h; discard <| Repository.setStatus h st)
      (fun _ τ => Turned shelf h (Card.finish st) τ) (barring G) σ := by
  refine desk_andThen (desk_clearPending hs) ?_
  intro _ τ hτ hbeside
  rw [attempts_discard]
  refine (desk_setStatus hτ st ?_).imp (fun _ υ hυ => ?_) fun _ _ => id
  · intro time r υ hbeside' hrecord hwritten
    rw [Function.update_self] at hrecord hwritten
    exact hA time r υ (hbeside.trans hbeside') hrecord hwritten
  · obtain ⟨time, hυ⟩ := hυ
    rw [Function.update_self, Function.update_idem] at hυ
    exact ⟨time, hυ⟩

theorem desk_close (hs : Stands σ.store shelf)
    (hA : Lets i A σ shelf h (Card.markRevealed none)) :
    Attempts (desk i A G) (do
      Repository.clearPending h
      if (← Repository.status h) ≠ some .revealed then
        discard <| Repository.setStatus h .revealed)
      (fun _ τ => Turned shelf h (Card.markRevealed none) τ) (barring G) σ := by
  refine desk_andThen (desk_clearPending hs) fun _ τ hτ hστ => ?_
  refine desk_andThen (desk_status hτ) ?_
  rintro st υ ⟨rfl, hυ⟩ hτυ
  have hsυ : Stands υ.store (Function.update shelf h (shelf h).clearPending) := hυ ▸ hτ
  rw [Function.update_self]
  split
  · rename_i hopen
    have hturned (time : Int64) : (shelf h).markRevealed none time =
        (shelf h).clearPending.setStatus .revealed time := if_neg hopen
    rw [attempts_discard]
    refine (desk_setStatus hsυ .revealed ?_).imp (fun _ ω hω => ?_) fun _ _ => id
    · intro time r ω hυω hrecord hwritten
      rw [Function.update_self] at hrecord hwritten
      exact hA time r ω ((hστ.trans hτυ).trans hυω) hrecord (hturned time ▸ hwritten)
    · obtain ⟨time, hω⟩ := hω
      rw [Function.update_self, Function.update_idem, ← hturned] at hω
      exact ⟨time, hω⟩
  · rename_i hdone
    have hturned : (shelf h).markRevealed none 0 = (shelf h).clearPending := if_pos (not_not.1 hdone)
    exact ⟨0, by rwa [hturned]⟩

theorem desk_markRevealed (hs : Stands σ.store shelf) (seed : Option Seed)
    (hA : Lets i A σ shelf h (Card.markRevealed seed)) :
    Attempts (desk i A G) (Repository.markRevealed h seed)
      (fun _ τ => Turned shelf h (Card.markRevealed seed) τ) (barring G) σ := by
  unfold Repository.markRevealed
  cases seed with
  | none => exact desk_close hs hA
  | some seed =>
    refine desk_andThen (desk_setSeed hs seed) fun _ τ hτ hbeside => ?_
    -- to close the card with the new seed is to mark the old one as revealed
    have hcard (time : Int64) : Card.markRevealed none time { shelf h with seed := some seed } =
        (shelf h).markRevealed (some seed) time := rfl
    refine (desk_close hτ ?_).imp (fun _ υ hυ => ?_) fun _ _ => id
    · intro time r υ hτυ hrecord hwritten
      rw [Function.update_self] at hrecord hwritten
      exact hA time r υ (hbeside.trans hτυ) hrecord (hcard time ▸ hwritten)
    · obtain ⟨time, hυ⟩ := hυ
      rw [Function.update_self, Function.update_idem, hcard] at hυ
      exact ⟨time, hυ⟩

end CommitReveal.Agent
