import CommitReveal.Proofs.Holdings
import CommitReveal.Proofs.Interleaving
import CommitReveal.Proofs.ScanRun

/-! Scans one after another over one store. Each begins where the store says, and each may end between
any two requests; then only the store is left of it. No block is skipped for all that. -/
namespace CommitReveal.Agent

open Program
open Repository (peek cursorKey placeOf)

/-- What an answer does to the store, whatever the memory holds. -/
def Serves (r : Request) (a : r.Answer) (b b' : Store.Backend) : Prop :=
  ∃ σ τ : Shared, σ.store = b ∧ Served r a σ τ ∧ τ.store = b'

inductive Phase where
  | down
  /-- Looking for the place to begin. -/
  | seeking (confirmations : Word) (rest : Activity (Except AgentError Word))
  /-- Within a step from the state `e`. -/
  | scanning (e : EventSync) (rest : Activity (StepOutcome × EventSync))

/-- An agent's scans over the life of its store. -/
structure Life where
  store : Store.Backend
  phase : Phase
  /-- Where the first scan began. -/
  origin : Option Word
  /-- All that was asked and answered, the oldest first. -/
  heard : Transcript interface

namespace Life

def start (store : Store.Backend) : Life :=
  ⟨store, .down, none, []⟩

def place (σ : Life) : Except Store.StoreError (Option Word) :=
  peek Repository.cursor σ.store

/-- As long as no place is stored, a scan is told to begin at `given`. -/
inductive Step (s : Settings) (handlers : List Handler) (given : Word) : Life → Life → Prop
  | begun {σ : Life} (b : Bootstrap) (confirmations : Word) (down : σ.phase = .down) :
    Step s handlers given σ { σ with phase := .seeking confirmations (resolveCursor b).run }
  | sought {σ : Life} {confirmations : Word} {r : Request}
    {next : r.Answer → Activity (Except AgentError Word)} {a : r.Answer} {b : Store.Backend}
    (phase : σ.phase = .seeking confirmations (.ask r next)) (serves : Serves r a σ.store b) :
    Step s handlers given σ ⟨b, .seeking confirmations (next a), σ.origin, σ.heard ++ [⟨r, a⟩]⟩
  | found {σ : Life} {confirmations cursor : Word}
    (phase : σ.phase = .seeking confirmations (.done (.ok cursor)))
    (told : σ.place = .ok none → cursor = given) :
    Step s handlers given σ { σ with
      phase := .scanning (.start cursor handlers confirmations)
        (scanStep s (.start cursor handlers confirmations))
      origin := some (σ.origin.getD cursor) }
  | scanned {σ : Life} {e : EventSync} {r : Request}
    {next : r.Answer → Activity (StepOutcome × EventSync)} {a : r.Answer} {b : Store.Backend}
    (phase : σ.phase = .scanning e (.ask r next)) (serves : Serves r a σ.store b) :
    Step s handlers given σ ⟨b, .scanning e (next a), σ.origin, σ.heard ++ [⟨r, a⟩]⟩
  | again {σ : Life} {e : EventSync} {result : StepOutcome × EventSync}
    (phase : σ.phase = .scanning e (.done result)) :
    Step s handlers given σ { σ with phase := .scanning result.2 (scanStep s result.2) }
  /-- A crash, a cancellation, or no place to begin. -/
  | ended {σ : Life} : Step s handlers given σ { σ with phase := .down }
  /-- Whoever else writes to the store leaves the place of the scan alone. -/
  | others {σ : Life} {b : Store.Backend} (kept : b.get? cursorKey = σ.store.get? cursorKey) :
    Step s handlers given σ { σ with store := b }

abbrev Leads (s : Settings) (handlers : List Handler) (given : Word) : Life → Life → Prop :=
  Relation.ReflTransGen (Step s handlers given)

/-- A block lay in a window whose logs were all dispatched. -/
def Delivered (s : Settings) (handlers : List Handler) (σ : Life) (b : Word) : Prop :=
  ∃ w logs, Dispatched s handlers w logs σ.heard ∧ w.covers b

/-- Every block from the first start on was delivered, up to a place and without it. -/
def DeliveredTo (s : Settings) (handlers : List Handler) (σ : Life) (c : Word) : Prop :=
  ∀ origin, σ.origin = some origin →
    origin ≤ c ∧ ∀ b, origin ≤ b → b < c → σ.Delivered s handlers b

end Life

variable {s : Settings} {handlers : List Handler} {given c : Word} {σ τ : Life} {e : EventSync}
  {w : ScanWindow} {logs : List EventLog} {t : Transcript interface} {held : Option Bytes}

/-- Where a place is looked for while the entry for it stays as it is. Nothing may be written. -/
abbrev reading (held : Option Bytes) : Surroundings interface where
  State := Unit
  Allows
    | .store (.call (.set ..)), _ | .store (.call (.delete _)), _ => False
    | _, _ => True
  Meanwhile _ _ _ := True
  Served
    | .store (.call (.get k)), answer, _, _ => k = cursorKey → ∀ value, answer = .ok value → value = held
    | _, _, _, _ => True

/-- A place to begin at is the stored one, if there is one. -/
def Found (held : Option Bytes) (c : Word) : Prop :=
  placeOf held = .ok none ∨ placeOf held = .ok (some c)

theorem finds_cursor : Attempts (reading held) (repository Repository.cursor)
    (fun place _ => placeOf held = .ok place) (fun _ _ => True) () := by
  unfold repository callRepository Attempts
  rw [Repository.run_cursor]
  intro _ _
  refine ⟨trivial, fun answer _ hserved => ?_⟩
  cases answer with
  | error cause => trivial
  | ok value =>
    rw [← hserved rfl value rfl]
    show Outcome _ _ ((placeOf value).mapError _) _
    cases placeOf value with
    | error cause => trivial
    | ok place => rfl

theorem finds_resolveCursor (b : Bootstrap) : Attempts (reading held) (resolveCursor b)
    (fun c _ => Found held c) (fun _ _ => True) () := by
  unfold resolveCursor
  refine attempts_bind.2 (finds_cursor.imp (fun place _ hplace => ?_) fun _ _ _ => trivial)
  have told (n : Notice) (c : Word) (hc : Found held c) : Attempts (reading held)
      (do notify n; return c : Attempt Word) (fun c _ => Found held c) (fun _ _ => True) () :=
    fun _ _ => ⟨trivial, fun _ _ _ => hc⟩
  cases place with
  | some c => exact told _ c (.inr hplace)
  | none =>
    dsimp only
    split
    · exact told _ _ (.inl hplace)
    · refine attempts_bind.2 fun _ _ => ⟨trivial, fun answer _ _ => ?_⟩
      rcases answer with cause | block
      · trivial
      · cases block with
        | some block => exact told _ _ (.inl hplace)
        | none => exact fun _ _ => ⟨trivial, fun _ _ _ => told _ _ (.inl hplace)⟩

theorem Serves.get?_cursorKey {r : Request} {a : r.Answer} {b b' : Store.Backend}
    (h : Serves r a b b') : b'.get? cursorKey = b.get? cursorKey ∨
      (∃ value, r = .store (.call (.set cursorKey value)) ∧ b'.get? cursorKey = some value) ∨
      r = .store (.call (.delete cursorKey)) := by
  obtain ⟨σ, τ, rfl, hserved, rfl⟩ := h
  cases r with
  | store q =>
    cases q with
    | clock => exact .inl (congrArg (fun τ => τ.store.get? cursorKey) hserved)
    | call c =>
      rcases hserved with ⟨_, -, rfl⟩ | ⟨-, rfl⟩
      · exact .inl rfl
      · cases c with
        | get k => exact .inl (by rw [Store.Backend.perform_get])
        | scan start => exact .inl (by rw [Store.Backend.perform_scan])
        | set k value =>
          simp only [Store.Backend.get?_set]
          by_cases hk : cursorKey = k
          · subst hk
            exact .inr (.inl ⟨value, rfl, if_pos rfl⟩)
          · exact .inl (if_neg hk)
        | delete k =>
          simp only [Store.Backend.get?_delete]
          by_cases hk : cursorKey = k
          · subst hk
            exact .inr (.inr rfl)
          · exact .inl (if_neg hk)
  | memory q => exact .inl (by rw [hserved.2])
  | nextReveal =>
    rcases hserved with ⟨-, rfl⟩ | ⟨_, _, -, -, rfl⟩
    · exact .inl rfl
    · exact .inl rfl
  | _ => exact .inl (congrArg (fun τ => τ.store.get? cursorKey) hserved)

theorem Serves.reading {r : Request} {a : r.Answer} {b b' : Store.Backend} (h : Serves r a b b')
    (hallows : (reading (b.get? cursorKey)).Allows r ()) :
    b'.get? cursorKey = b.get? cursorKey ∧ (reading (b.get? cursorKey)).Served r a () () := by
  constructor
  · rcases h.get?_cursorKey with hkept | ⟨_, rfl, -⟩ | rfl
    · exact hkept
    · exact hallows.elim
    · exact hallows.elim
  · obtain ⟨σ, τ, rfl, hserved, -⟩ := h
    cases r with
    | store q =>
      cases q with
      | clock => trivial
      | call c =>
        cases c with
        | get k =>
          intro hk value hvalue
          subst hk hvalue
          rcases hserved with ⟨_, herror, -⟩ | ⟨hanswer, -⟩
          · cases herror
          · rcases hanswer with hok | ⟨_, herror⟩
            · exact Except.ok.inj hok
            · cases herror
        | _ => trivial
    | _ => trivial

theorem Serves.meets {r : Request} {a : r.Answer} {b b' : Store.Backend} (h : Serves r a b b')
    (hmeets : Meets s e r t) : peek Repository.cursor b' = peek Repository.cursor b ∨
      ∃ w logs p c, Scanned s e w logs p t ∧ Word.add? w.last 1 = some c ∧
        peek Repository.cursor b' = .ok (some c) := by
  simp only [Repository.peek_cursor]
  rcases h.get?_cursorKey with hkept | ⟨_, rfl, hset⟩ | rfl
  · exact .inl (by rw [hkept])
  · rcases hmeets with ⟨field, hash, hkey⟩ | ⟨-, w, logs, p, c, hscanned, hadd, rfl⟩
    · exact absurd hkey.symm (Repository.key_ne_cursorKey field hash)
    · exact .inr ⟨w, logs, p, c, hscanned, hadd, by rw [hset, Repository.placeOf_ofNatBE]⟩
  · obtain ⟨field, hash, hkey⟩ := hmeets
    exact absurd hkey.symm (Repository.key_ne_cursorKey field hash)

namespace Life

theorem deliveredTo_origin (h : σ.origin = some c) : σ.DeliveredTo s handlers c := by
  intro origin ho
  obtain rfl := Option.some.inj (h.symm.trans ho)
  exact ⟨UInt64.le_refl c, fun b hb hbc => absurd hbc (UInt64.not_lt.2 hb)⟩

theorem DeliveredTo.widen (h : σ.DeliveredTo s handlers c) (horigin : τ.origin = σ.origin)
    (hheard : τ.heard = σ.heard ++ t) : τ.DeliveredTo s handlers c := by
  intro origin ho
  obtain ⟨hle, hall⟩ := h origin (horigin ▸ ho)
  refine ⟨hle, fun b hb hbc => ?_⟩
  obtain ⟨w, logs, hdispatched, hcovers⟩ := hall b hb hbc
  exact ⟨w, logs, hheard ▸ hdispatched.within [] t, hcovers⟩

theorem DeliveredTo.snoc (h : σ.DeliveredTo s handlers w.first) (hle : w.first.toNat ≤ w.last.toNat)
    (hdispatched : Dispatched s handlers w logs σ.heard) (hadd : Word.add? w.last 1 = some c) :
    σ.DeliveredTo s handlers c := by
  have hbehind : w.last.toNat + 1 = c.toNat := Word.add?_eq_some_iff.1 hadd
  intro origin ho
  obtain ⟨hfirst, hall⟩ := h origin ho
  simp only [UInt64.le_iff_toNat_le, UInt64.lt_iff_toNat_lt] at hfirst hall ⊢
  refine ⟨by omega, fun b hb hbc => ?_⟩
  by_cases hbefore : b.toNat < w.first.toNat
  · exact hall b hb hbefore
  · exact ⟨w, logs, hdispatched, ScanWindow.covers_iff.2 ⟨by omega, by omega⟩⟩

/-- Where a scan stands within a step, after what this step has asked. The stored place is at most the
cursor, unless it was moved already, behind the window that was fetched. -/
structure Standing (s : Settings) (handlers : List Handler) (σ : Life) (e : EventSync)
    (rest : Activity (StepOutcome × EventSync)) (t : Transcript interface) : Prop where
  told : e.handlers = handlers
  begun : σ.origin.isSome
  delivered : σ.DeliveredTo s handlers e.cursor
  heard : ∃ past, σ.heard = past ++ t
  owed : rest.Upholds (watched (Meets s e)) (Finished s e) t
  stored : ∀ c, σ.place = .ok (some c) → c ≤ e.cursor ∨
    ∃ w logs, (w, logs) ∈ fetched t ∧ Word.add? w.last 1 = some c

/-- Behind a dispatched window all is delivered, and the stored place is not beyond. -/
theorem Standing.behind {rest : Activity (StepOutcome × EventSync)} {p : Progress}
    (h : Standing s handlers σ e rest t) (hscanned : Scanned s e w logs p t)
    (hadd : Word.add? w.last 1 = some c) :
    σ.DeliveredTo s handlers c ∧ ∀ c', σ.place = .ok (some c') → c' ≤ c := by
  obtain ⟨hfirst, hlt⟩ := hscanned.follows
  constructor
  · have hdelivered := h.delivered
    obtain ⟨past, hpast⟩ := h.heard
    have hdispatched := hscanned.dispatched.within past []
    rw [List.append_nil, ← hpast, h.told] at hdispatched
    rw [← hfirst] at hdelivered hlt
    exact hdelivered.snoc (Nat.le_of_lt hlt) hdispatched hadd
  · intro c' hc'
    have hbehind : w.last.toNat + 1 = c.toNat := Word.add?_eq_some_iff.1 hadd
    rcases h.stored c' hc' with hle | ⟨w', logs', hmem, hadd'⟩
    · rw [UInt64.le_iff_toNat_le] at hle ⊢
      omega
    · rw [hscanned.fetched_eq] at hmem
      cases List.mem_singleton.1 hmem
      cases hadd.symm.trans hadd'
      exact UInt64.le_refl c

structure Sound (s : Settings) (handlers : List Handler) (given : Word) (σ : Life) : Prop where
  stored : ∀ c, σ.place = .ok (some c) → σ.DeliveredTo s handlers c
  unstored : σ.place = .ok none → ∀ origin, σ.origin = some origin → origin = given
  seeking : ∀ confirmations rest, σ.phase = .seeking confirmations rest →
    rest.Upholds (reading (σ.store.get? cursorKey))
      (Outcome (fun c _ => Found (σ.store.get? cursorKey) c) fun _ _ => True) ()
  scanning : ∀ e rest, σ.phase = .scanning e rest → ∃ t, Standing s handlers σ e rest t

def Onward (σ τ : Life) : Prop :=
  ∀ c, σ.place = .ok (some c) → ∃ c', τ.place = .ok (some c') ∧ c ≤ c'

theorem Onward.refl (σ : Life) : Onward σ σ :=
  fun c hc => ⟨c, hc, UInt64.le_refl c⟩

theorem onward_of_place (h : τ.place = σ.place) : Onward σ τ :=
  fun c hc => ⟨c, h.trans hc, UInt64.le_refl c⟩

theorem Onward.trans {υ : Life} (h : Onward σ τ) (h' : Onward τ υ) : Onward σ υ := by
  intro c hc
  obtain ⟨c', hc', hle⟩ := h c hc
  obtain ⟨c'', hc'', hle'⟩ := h' c' hc'
  exact ⟨c'', hc'', UInt64.le_trans hle hle'⟩

theorem place_eq (σ : Life) : σ.place = placeOf (σ.store.get? cursorKey) :=
  Repository.peek_cursor σ.store

theorem sound_start (store : Store.Backend) : Sound s handlers given (start store) where
  stored _ _ _ ho := nomatch ho
  unstored _ _ ho := nomatch ho
  seeking _ _ hphase := nomatch hphase
  scanning _ _ hphase := nomatch hphase

theorem Sound.keeping (h : Sound s handlers given σ) (hplace : τ.place = σ.place)
    (horigin : τ.origin = σ.origin) (hheard : τ.heard = σ.heard ++ t)
    (hseeking : ∀ confirmations rest, τ.phase = .seeking confirmations rest →
      rest.Upholds (reading (τ.store.get? cursorKey))
        (Outcome (fun c _ => Found (τ.store.get? cursorKey) c) fun _ _ => True) ())
    (hscanning : ∀ e rest, τ.phase = .scanning e rest → ∃ t, Standing s handlers τ e rest t) :
    Sound s handlers given τ where
  stored c hc := (h.stored c (hplace ▸ hc)).widen horigin hheard
  unstored hnone origin ho := h.unstored (hplace ▸ hnone) origin (horigin ▸ ho)
  seeking := hseeking
  scanning := hscanning

/-- A scan begins at the stored place, or again where the first one began. -/
theorem Sound.found {confirmations cursor : Word} (h : Sound s handlers given σ)
    (hphase : σ.phase = .seeking confirmations (.done (.ok cursor)))
    (htold : σ.place = .ok none → cursor = given) :
    Sound s handlers given { σ with
      phase := .scanning (.start cursor handlers confirmations)
        (scanStep s (.start cursor handlers confirmations))
      origin := some (σ.origin.getD cursor) } := by
  have hfound : Found (σ.store.get? cursorKey) cursor := h.seeking confirmations _ hphase
  unfold Found at hfound
  rw [← place_eq] at hfound
  have hdelivered : DeliveredTo s handlers { σ with origin := some (σ.origin.getD cursor) } cursor := by
    cases horigin : σ.origin with
    | none => exact deliveredTo_origin rfl
    | some first =>
      rcases hfound with hnone | hsome
      · apply deliveredTo_origin
        rw [htold hnone, ← h.unstored hnone first horigin]
        rfl
      · intro origin ho
        exact h.stored cursor hsome origin (horigin.trans ho)
  have hstored : ∀ c, σ.place = .ok (some c) → c = cursor := by
    intro c hc
    rcases hfound with hnone | hsome
    · cases hnone.symm.trans hc
    · cases hsome.symm.trans hc
      rfl
  constructor
  · intro c hc
    rw [hstored c hc]
    exact hdelivered
  · intro hnone origin ho
    cases horigin : σ.origin with
    | none =>
      rw [horigin] at ho
      exact (Option.some.inj ho).symm.trans (htold hnone)
    | some first =>
      rw [horigin] at ho
      exact h.unstored hnone origin (horigin.trans ho)
  · exact fun _ _ hscanning => nomatch hscanning
  · intro e rest hscanning
    cases hscanning
    refine ⟨[], rfl, rfl, hdelivered, ⟨σ.heard, (List.append_nil _).symm⟩, scanStep_meets s _, ?_⟩
    intro c hc
    rw [hstored c hc]
    exact .inl (UInt64.le_refl cursor)

theorem Sound.scanned {r : Request} {next : r.Answer → Activity (StepOutcome × EventSync)}
    {a : r.Answer} {b : Store.Backend} (h : Sound s handlers given σ)
    (hphase : σ.phase = .scanning e (.ask r next)) (hserves : Serves r a σ.store b) :
    Sound s handlers given ⟨b, .scanning e (next a), σ.origin, σ.heard ++ [⟨r, a⟩]⟩ ∧
      Onward σ ⟨b, .scanning e (next a), σ.origin, σ.heard ++ [⟨r, a⟩]⟩ := by
  obtain ⟨t, hstanding⟩ := h.scanning e _ hphase
  obtain ⟨hmeets, hnext⟩ := upholds_watched.1 hstanding.owed
  -- The rest of the step stands as before, once the stored place is known.
  have hafter (hb : ∀ c, peek Repository.cursor b = .ok (some c) → c ≤ e.cursor ∨
      ∃ w logs, (w, logs) ∈ fetched t ∧ Word.add? w.last 1 = some c) :
      Standing s handlers ⟨b, .scanning e (next a), σ.origin, σ.heard ++ [⟨r, a⟩]⟩ e (next a)
        (t ++ [⟨r, a⟩]) := by
    refine ⟨hstanding.told, hstanding.begun, hstanding.delivered.widen rfl rfl, ?_, hnext a, ?_⟩
    · obtain ⟨past, hpast⟩ := hstanding.heard
      exact ⟨past, by rw [hpast, List.append_assoc]⟩
    · intro c hc
      rcases hb c hc with hle | ⟨w, logs, hmem, hadd⟩
      · exact .inl hle
      · refine .inr ⟨w, logs, ?_, hadd⟩
        unfold fetched
        rw [List.filterMap_append]
        exact List.mem_append_left _ hmem
  rcases hserves.meets hmeets with hkept | ⟨w, logs, p, c, hscanned, hadd, hmoved⟩
  · refine ⟨h.keeping hkept rfl rfl ?_ ?_, onward_of_place hkept⟩
    · exact fun _ _ hseeking => nomatch hseeking
    · intro e' rest hscanning
      cases hscanning
      exact ⟨_, hafter fun c hc => hstanding.stored c (hkept.symm.trans hc)⟩
  · obtain ⟨hdelivered, hbefore⟩ := hstanding.behind hscanned hadd
    refine ⟨⟨?_, ?_, ?_, ?_⟩, fun c' hc' => ⟨c, hmoved, hbefore c' hc'⟩⟩
    · intro c' hc'
      cases hmoved.symm.trans hc'
      exact hdelivered.widen rfl rfl
    · intro hnone
      cases hmoved.symm.trans hnone
    · exact fun _ _ hseeking => nomatch hseeking
    · intro e' rest hscanning
      cases hscanning
      refine ⟨_, hafter fun c' hc' => .inr ⟨w, logs, ?_, ?_⟩⟩
      · rw [hscanned.fetched_eq]
        exact List.mem_singleton_self _
      · cases hmoved.symm.trans hc'
        exact hadd

theorem Sound.again {result : StepOutcome × EventSync} (h : Sound s handlers given σ)
    (hphase : σ.phase = .scanning e (.done result)) :
    Sound s handlers given { σ with phase := .scanning result.2 (scanStep s result.2) } := by
  obtain ⟨t, hstanding⟩ := h.scanning e _ hphase
  have hfinished : Finished s e result t := hstanding.owed
  have hstep := scanStep_meets s result.2
  refine h.keeping (t := []) rfl rfl (List.append_nil _).symm ?_ ?_
  · exact fun _ _ hseeking => nomatch hseeking
  · intro e' rest hscanning
    cases hscanning
    rcases hfinished with ⟨hsame, hnone⟩ | ⟨w, logs, p, cursor, recorded, hscanned, hadd, -, heq⟩
    · rw [hsame] at hstep ⊢
      refine ⟨[], hstanding.told, hstanding.begun, hstanding.delivered,
        ⟨σ.heard, (List.append_nil _).symm⟩, hstep, fun c hc => ?_⟩
      rcases hstanding.stored c hc with hle | ⟨w, logs, hmem, -⟩
      · exact .inl hle
      · rw [hnone] at hmem
        cases hmem
    · obtain ⟨hdelivered, hbefore⟩ := hstanding.behind hscanned hadd
      rw [heq] at hstep ⊢
      exact ⟨[], hstanding.told, hstanding.begun, hdelivered,
        ⟨σ.heard, (List.append_nil _).symm⟩, hstep, fun c hc => .inl (hbefore c hc)⟩

theorem Sound.step (h : Sound s handlers given σ) (hstep : Step s handlers given σ τ) :
    Sound s handlers given τ ∧ Onward σ τ := by
  cases hstep with
  | begun b confirmations hdown =>
    refine ⟨h.keeping (t := []) rfl rfl (List.append_nil _).symm ?_ ?_, .refl σ⟩
    · intro _ rest hseeking
      cases hseeking
      exact finds_resolveCursor b
    · exact fun _ _ hscanning => nomatch hscanning
  | sought hphase hserves =>
    have hrest := h.seeking _ _ hphase () trivial
    obtain ⟨hkept, hread⟩ := hserves.reading hrest.1
    have hplace := congrArg placeOf hkept
    rw [← Repository.peek_cursor, ← Repository.peek_cursor] at hplace
    refine ⟨h.keeping hplace rfl rfl ?_ ?_, onward_of_place hplace⟩
    · intro _ rest hseeking
      cases hseeking
      dsimp only
      rw [hkept]
      exact hrest.2 _ () hread
    · exact fun _ _ hscanning => nomatch hscanning
  | found hphase htold => exact ⟨h.found hphase htold, onward_of_place rfl⟩
  | scanned hphase hserves => exact h.scanned hphase hserves
  | again hphase => exact ⟨h.again hphase, onward_of_place rfl⟩
  | ended =>
    refine ⟨h.keeping (t := []) rfl rfl (List.append_nil _).symm ?_ ?_, onward_of_place rfl⟩
    · exact fun _ _ hseeking => nomatch hseeking
    · exact fun _ _ hscanning => nomatch hscanning
  | @others b hkept =>
    have hplace := congrArg placeOf hkept
    rw [← Repository.peek_cursor, ← Repository.peek_cursor] at hplace
    refine ⟨h.keeping (t := []) hplace rfl (List.append_nil _).symm ?_ ?_, onward_of_place hplace⟩
    · intro confirmations rest hseeking
      dsimp only
      rw [hkept]
      exact h.seeking confirmations rest hseeking
    · intro e rest hscanning
      obtain ⟨t, hstanding⟩ := h.scanning e rest hscanning
      exact ⟨t, hstanding.told, hstanding.begun, hstanding.delivered, hstanding.heard, hstanding.owed,
        fun c hc => hstanding.stored c (hplace.symm.trans hc)⟩

theorem Sound.onward (h : Sound s handlers given σ) (hleads : Leads s handlers given σ τ) :
    Sound s handlers given τ ∧ Onward σ τ := by
  induction hleads with
  | refl => exact ⟨h, .refl σ⟩
  | tail _ hstep ih =>
    obtain ⟨hsound, honward⟩ := ih.1.step hstep
    exact ⟨hsound, ih.2.trans honward⟩

/-- Wherever scans were ended and whatever writes have failed, each block from the first start up to the
stored place was delivered. -/
theorem delivered_at_least_once {store : Store.Backend}
    (hbefore : Leads s handlers given (start store) σ) (hafter : Leads s handlers given σ τ) :
    (∀ c, τ.place = .ok (some c) → τ.DeliveredTo s handlers c) ∧
    (∀ c, σ.place = .ok (some c) → ∃ c', τ.place = .ok (some c') ∧ c ≤ c') ∧
    ∀ e rest, τ.phase = .scanning e rest →
      τ.origin.isSome ∧ τ.DeliveredTo s handlers e.cursor := by
  have hstart : Sound s handlers given (start store) := sound_start store
  obtain ⟨hsound, -⟩ := hstart.onward hbefore
  obtain ⟨hsound', honward⟩ := hsound.onward hafter
  refine ⟨hsound'.stored, honward, fun e rest hphase => ?_⟩
  obtain ⟨t, hstanding⟩ := hsound'.scanning e rest hphase
  exact ⟨hstanding.begun, hstanding.delivered⟩

inductive Answers : Store.Backend → Transcript interface → Store.Backend → Prop
  | nil (b : Store.Backend) : Answers b [] b
  | cons {b b₁ b₂ : Store.Backend} {r : Request} {a : r.Answer} {t : Transcript interface}
    (first : Serves r a b b₁) (rest : Answers b₁ t b₂) : Answers b (⟨r, a⟩ :: t) b₂

theorem serves_call (c : Store.Call) (b : Store.Backend) :
    Serves (.store (.call c)) (.ok (b.perform c).1) b (b.perform c).2 :=
  ⟨⟨b, .empty 1, []⟩, _, rfl, .inr ⟨.inl rfl, rfl⟩, rfl⟩

theorem leads_answers {α : Type} (phase : Activity α → Phase)
    (hphase : ∀ {r : Request} {next : r.Answer → Activity α} {a : r.Answer} {b b' : Store.Backend}
      {o : Option Word} {heard : Transcript interface}, Serves r a b b' →
      Step s handlers given ⟨b, phase (.ask r next), o, heard⟩
        ⟨b', phase (next a), o, heard ++ [⟨r, a⟩]⟩)
    {o : Option Word} {heard : Transcript interface} {b b' : Store.Backend} {p q : Activity α}
    (hreach : p.Reaches t q) (hanswers : Answers b t b') :
    Leads s handlers given ⟨b, phase p, o, heard⟩ ⟨b', phase q, o, heard ++ t⟩ := by
  induction hreach generalizing b heard with
  | here p =>
    cases hanswers
    rw [List.append_nil]
  | asked rest ih =>
    cases hanswers with
    | cons first hrest =>
      rw [List.append_cons]
      exact .head (hphase first) (ih hrest)

theorem leads_begun {o : Option Word} {heard : Transcript interface} {b b' : Store.Backend}
    (bootstrap : Bootstrap) (confirmations cursor : Word)
    (hreach : (resolveCursor bootstrap).run.Reaches t (.done (.ok cursor)))
    (hanswers : Answers b t b') (htold : peek Repository.cursor b' = .ok none → cursor = given) :
    Leads s handlers given ⟨b, .down, o, heard⟩
      ⟨b', .scanning (.start cursor handlers confirmations)
        (scanStep s (.start cursor handlers confirmations)), some (o.getD cursor), heard ++ t⟩ := by
  refine .head (.begun bootstrap confirmations rfl) ?_
  exact .tail (leads_answers (.seeking confirmations) (fun h => .sought rfl h) hreach hanswers)
    (.found rfl htold)

def lookUp (b : Store.Backend) (n : Notice) : Transcript interface :=
  [⟨.store (.call (.get cursorKey)), .ok (b.get? cursorKey)⟩, ⟨.notify n, ()⟩]

theorem delivered_at_least_once_firstStep : ∃ (store : Store.Backend) (σ τ : Life),
    Leads usual [.revealTrigger] 10 (start store) σ ∧ Leads usual [.revealTrigger] 10 σ τ ∧
      σ.phase = .down ∧ σ.place = .ok (some 21) ∧
      (∃ rest, τ.phase = .scanning (.start 21 [.revealTrigger] 5) rest) ∧
      (∃ c, τ.place = .ok (some c) ∧ 21 ≤ c) ∧ τ.Delivered usual [.revealTrigger] 15 ∧
      ∃ during, during.Sublist τ.heard ∧ Called .live [(.revealTrigger, awaited)] during := by
  let empty : Store.Backend := .memory .empty
  let stored : Store.Backend := (empty.perform (.set cursorKey (Bytes.ofNatBE 8 21))).2
  have hserves (r : Request) (a : r.Answer) (b : Store.Backend)
      (h : Served r a ⟨b, .empty 1, []⟩ ⟨b, .empty 1, []⟩) : Serves r a b b := ⟨_, _, rfl, h, rfl⟩
  have hget (k : Bytes) (b : Store.Backend) : Serves (.store (.call (.get k))) (.ok (b.get? k)) b b := by
    have hserved := serves_call (.get k) b
    rwa [Store.Backend.perform_get] at hserved
  have hlooked (b : Store.Backend) (n : Notice) : Answers b (lookUp b n) b :=
    .cons (hget _ b) (.cons (hserves _ _ _ rfl) (.nil b))
  have hfirst : Answers empty (firstStep (.ok ())) stored :=
    .cons (hserves _ _ _ rfl) (.cons (hserves _ _ _ rfl) (.cons (hget _ _) (.cons (serves_call _ _)
      (.cons (hserves _ _ _ rfl) (.nil stored)))))
  have hbegun : Leads usual [.revealTrigger] 10 (start empty) _ :=
    leads_begun ⟨none, some 10⟩ 5 10 (t := lookUp empty (.scanFrom 10)) (.asked (.asked (.here _)))
      (hlooked _ _) fun _ => rfl
  let crashed : Life := ⟨stored, .down, some 10, lookUp empty (.scanFrom 10) ++ firstStep (.ok ())⟩
  have hdown : Leads usual [.revealTrigger] 10 (start empty) crashed :=
    (hbegun.trans (leads_answers (.scanning _) (fun h => .scanned rfl h)
      (reaches_firstStep (.ok ())) hfirst)).tail .ended
  have hagain : Leads usual [.revealTrigger] 10 crashed _ :=
    leads_begun ⟨none, some 10⟩ 5 21 (t := lookUp stored (.scanResumed 21)) (.asked (.asked (.here _)))
      (hlooked _ _) fun h => nomatch h
  have hplace : peek Repository.cursor stored = .ok (some 21) := rfl
  obtain ⟨hstored, honward, -⟩ := delivered_at_least_once hdown hagain
  have hdelivered := (hstored 21 hplace 10 rfl).2 15 (by decide) (by decide)
  obtain ⟨w, logs, hdispatched, hcovers⟩ := hdelivered
  exact ⟨empty, _, _, hdown, hagain, rfl, hplace, ⟨_, rfl⟩, honward 21 hplace, ⟨w, logs, hdispatched, hcovers⟩,
    called_of_dispatched hdispatched rfl⟩

end Life

end CommitReveal.Agent
