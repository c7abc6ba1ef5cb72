import CommitReveal.Oracle.Event
import CommitReveal.Proofs.Tidiness

/-! What events about a hash make of its card, and that hearing them again makes nothing new of it. After
an event has been heard, hearing it once more leaves the status, the mark and the time of the record; the
seed and the block are those that were heard last; and cards that agree go on to agree. -/
namespace CommitReveal

namespace OracleEvent

def seed? : OracleEvent → Option Seed
  | .seedRevealed _ _ seed => some seed
  | _ => none

def block? : OracleEvent → Option Word
  | .commitRegistered _ _ block => some block
  | _ => none

/-- What the last event says of those that say anything. -/
def latest {β : Type} (f : OracleEvent → Option β) : List OracleEvent → Option β
  | [] => none
  | e :: es => (latest f es).or (f e)

end OracleEvent

namespace Repository.Card

open OracleEvent (latest)

variable {c c' d d' : Card} {e : OracleEvent} {es ps : List OracleEvent} {st : Status} {block : Word}
  {seed : Option Seed} {time time' : Int64} {B : Prop}

def proceed (time : Int64) (c : Card) : Card :=
  if c.pending ∧ c.status = some .committed then c.setStatus .pendingReveal time else c

/-- What an event makes of the card of its hash. -/
def hear (e : OracleEvent) (time : Int64) (c : Card) : Card :=
  match e with
  | .commitRegistered _ _ block => if c.seed.isSome then (c.setCommitBlock block time).proceed time else c
  | .seedRevealed _ _ seed => c.markRevealed (some seed) time
  | _ => c

inductive Hears : List OracleEvent → Card → Card → Prop
  | nil (c : Card) : Hears [] c c
  | cons {e : OracleEvent} {es : List OracleEvent} {c c' : Card} (time : Int64)
    (rest : Hears es (c.hear e time) c') : Hears (e :: es) c c'

def written (c : Card) : Option Int64 :=
  c.record.map (·.updatedAt)

/-- Nothing is pending but what is unfinished. -/
def Sound (c : Card) : Prop :=
  c.pending → c.unfinished

section Fields

theorem isSome_status : c.status.isSome = c.record.isSome :=
  Option.isSome_map

theorem status_setStatus : (c.setStatus st time).status = if c.finished then c.status else some st := by
  unfold setStatus finished status
  cases hr : c.record with
  | none => rfl
  | some r =>
    dsimp only [Option.map_some, Option.any_some]
    by_cases hfinal : r.status.isTerminal
    · by_cases hst : r.status = st
      · simp [hst]
      · simp [hfinal, hst, hr]
    · simp [hfinal]

theorem block_setStatus : (c.setStatus st time).block = c.block := by
  unfold setStatus block
  cases hr : c.record with
  | none => rfl
  | some r =>
    dsimp only
    split
    · rw [hr]
    · rfl

theorem status_setCommitBlock : (c.setCommitBlock block time).status = some (c.status.getD .committed) := by
  unfold setCommitBlock status
  cases c.record <;> rfl

theorem status_setCommitBlock_of_isSome (hr : c.record.isSome) :
    (c.setCommitBlock block time).status = c.status := by
  obtain ⟨r, hr⟩ := Option.isSome_iff_exists.1 hr
  simp [setCommitBlock, status, hr]

theorem block_setCommitBlock : (c.setCommitBlock block time).block = some block := by
  unfold setCommitBlock
  cases c.record <;> rfl

@[simp] theorem seed_setCommitBlock : (c.setCommitBlock block time).seed = c.seed := by
  unfold setCommitBlock
  cases c.record <;> rfl

@[simp] theorem pending_setCommitBlock : (c.setCommitBlock block time).pending = c.pending := by
  unfold setCommitBlock
  cases c.record <;> rfl

theorem setCommitBlock_time (hr : c.record.isSome) (time time' : Int64) :
    c.setCommitBlock block time = c.setCommitBlock block time' := by
  obtain ⟨r, hr⟩ := Option.isSome_iff_exists.1 hr
  simp only [setCommitBlock, hr]

theorem written_setCommitBlock (hr : c.record.isSome) :
    (c.setCommitBlock block time).written = c.written := by
  obtain ⟨r, hr⟩ := Option.isSome_iff_exists.1 hr
  simp [setCommitBlock, written, hr]

theorem record_setStatus (hfinal : c.finished) (hst : c.status ≠ some st) :
    (c.setStatus st time).record = c.record := by
  unfold setStatus
  cases hr : c.record with
  | none => simp [finished, status, hr] at hfinal
  | some r =>
    have hkept : (r.status.isTerminal && decide (r.status ≠ st)) = true := by
      simp only [finished, status, hr, Option.map_some, Option.any_some, ne_eq,
        Option.some.injEq] at hfinal hst
      simp [hfinal, hst]
    dsimp only
    rw [if_pos hkept, hr]

theorem status_markRevealed :
    (c.markRevealed seed time).status = if c.finished then c.status else some .revealed := by
  unfold markRevealed
  dsimp only
  split
  · rename_i hdone
    have hstatus : c.status = some .revealed := hdone
    rw [if_pos (by rw [finished, hstatus]; rfl)]
    rfl
  · exact status_setStatus

@[simp] theorem pending_markRevealed : (c.markRevealed seed time).pending = false := by
  unfold markRevealed
  dsimp only
  split
  · rfl
  · exact pending_setStatus _ _

@[simp] theorem seed_markRevealed : (c.markRevealed seed time).seed = seed.or c.seed := by
  unfold markRevealed
  dsimp only
  split
  · rfl
  · exact seed_setStatus _ _

theorem block_markRevealed : (c.markRevealed seed time).block = c.block := by
  unfold markRevealed
  dsimp only
  split
  · rfl
  · exact block_setStatus

theorem record_markRevealed (hfinal : c.finished) : (c.markRevealed seed time).record = c.record := by
  unfold markRevealed
  dsimp only
  split
  · rfl
  · rename_i hopen
    exact record_setStatus (c := { c.clearPending with seed := seed.or c.seed }) hfinal hopen

theorem status_proceed : (c.proceed time).status =
    if c.pending ∧ c.status = some .committed then some .pendingReveal else c.status := by
  unfold proceed
  split
  · rename_i howed
    rw [status_setStatus, if_neg]
    rw [finished, howed.2]
    exact Bool.false_ne_true
  · rfl

@[simp] theorem seed_proceed : (c.proceed time).seed = c.seed := by
  unfold proceed
  split
  · exact seed_setStatus _ _
  · rfl

@[simp] theorem pending_proceed : (c.proceed time).pending = c.pending := by
  unfold proceed
  split
  · exact pending_setStatus _ _
  · rfl

theorem block_proceed : (c.proceed time).block = c.block := by
  unfold proceed
  split
  · exact block_setStatus
  · rfl

theorem hear_commit {sender : Address} {h : Hash} (hseed : c.seed.isSome) :
    c.hear (.commitRegistered sender h block) time = (c.setCommitBlock block time).proceed time :=
  if_pos hseed

theorem hear_commit_unseeded {sender : Address} {h : Hash} (hseed : ¬c.seed.isSome) :
    c.hear (.commitRegistered sender h block) time = c :=
  if_neg hseed

theorem isSome_record_of_unfinished (hopen : c.unfinished) : c.record.isSome := by
  unfold unfinished status at hopen
  cases hr : c.record with
  | none => simp [hr] at hopen
  | some r => rfl

theorem isSome_record (hfinal : c.finished) : c.record.isSome := by
  unfold finished status at hfinal
  cases hr : c.record with
  | none => simp [hr] at hfinal
  | some r => rfl

theorem seed_hear : (c.hear e time).seed = e.seed?.or c.seed := by
  cases e with
  | commitRegistered sender h block =>
    simp only [hear]
    split
    · rw [seed_proceed, seed_setCommitBlock]
      rfl
    · rfl
  | seedRevealed committer h seed => exact seed_markRevealed
  | _ => rfl

theorem block_hear (hc : c.seed.isSome) : (c.hear e time).block = e.block?.or c.block := by
  cases e with
  | commitRegistered sender h block =>
    simp only [hear]
    rw [if_pos hc, block_proceed, block_setCommitBlock]
    rfl
  | seedRevealed committer h seed => exact block_markRevealed
  | _ => rfl

theorem pending_hear : (c.hear e time).pending = (e.seed?.isNone && c.pending) := by
  cases e with
  | commitRegistered sender h block =>
    simp only [hear]
    split
    · rw [pending_proceed, pending_setCommitBlock]
      rfl
    · rfl
  | seedRevealed committer h seed => exact pending_markRevealed
  | _ => rfl

end Fields

section Sound

theorem Sound.hear (hc : c.Sound) : (c.hear e time).Sound := by
  cases e with
  | commitRegistered sender h block =>
    simp only [Card.hear]
    split
    · intro hpending
      rw [pending_proceed, pending_setCommitBlock] at hpending
      have hopen := hc hpending
      unfold unfinished at hopen ⊢
      rw [status_proceed, status_setCommitBlock, pending_setCommitBlock]
      split
      · rfl
      · cases hst : c.status with
        | none => rfl
        | some st => rwa [hst] at hopen
    · exact hc
  | seedRevealed committer h seed =>
    intro hpending
    simp [Card.hear] at hpending
  | _ => exact hc

theorem Sound.hears (hc : c.Sound) (hheard : Hears es c c') : c'.Sound := by
  induction hheard with
  | nil c => exact hc
  | cons time rest ih => exact ih hc.hear

theorem Sound.not_pending (hc : c.Sound) (hfinal : c.finished) : c.pending = false := by
  by_contra hpending
  rw [Bool.not_eq_false] at hpending
  have hopen := hc hpending
  rw [unfinished_eq_false hfinal] at hopen
  cases hopen

end Sound

section Again

/-- The event has been heard: hearing it again writes no record but to note the block. -/
def Settled (e : OracleEvent) (c : Card) : Prop :=
  match e with
  | .commitRegistered _ _ _ =>
    c.seed.isSome → c.record.isSome ∧ ¬(c.pending ∧ c.status = some .committed)
  | .seedRevealed _ _ _ => c.finished
  | _ => True

theorem finished_hear (hfinal : c.finished) (hc : c.Sound) :
    (c.hear e time).status = c.status ∧ (c.hear e time).pending = false := by
  have hpending := hc.not_pending hfinal
  refine ⟨?_, by rw [pending_hear, hpending, Bool.and_false]⟩
  cases e with
  | commitRegistered sender h block =>
    by_cases hseed : c.seed.isSome
    · rw [hear_commit hseed, status_proceed, pending_setCommitBlock, hpending,
        if_neg fun howed => nomatch howed.1]
      exact status_setCommitBlock_of_isSome (isSome_record hfinal)
    · rw [hear_commit_unseeded hseed]
  | seedRevealed committer h seed =>
    simp only [hear]
    rw [status_markRevealed, if_pos hfinal]
  | _ => rfl

theorem hear_again {sender sender' : Address} {h h' : Hash} {block' : Word}
    (hs : c.Settled (.commitRegistered sender h block)) (hseed : c.seed.isSome) :
    c.hear (.commitRegistered sender' h' block') time = c.setCommitBlock block' time := by
  obtain ⟨hr, howed⟩ := hs hseed
  rw [hear_commit hseed, proceed, pending_setCommitBlock, status_setCommitBlock_of_isSome hr, if_neg howed]

theorem settled_hear : (c.hear e time).Settled e := by
  cases e with
  | commitRegistered sender h block =>
    intro hseed
    have hbefore : c.seed.isSome := by rwa [seed_hear] at hseed
    rw [hear_commit hbefore, ← isSome_status, status_proceed, pending_proceed]
    split
    · exact ⟨rfl, fun howed => nomatch howed.2⟩
    · rename_i howed
      exact ⟨by rw [status_setCommitBlock]; rfl, howed⟩
  | seedRevealed committer h seed => exact finished_markRevealed _ _
  | _ => trivial

theorem Settled.hear {e' : OracleEvent} (hs : c.Settled e) (hc : c.Sound) : (c.hear e' time).Settled e := by
  cases e with
  | commitRegistered sender h block =>
    intro hseed
    cases e' with
    | commitRegistered sender' h' block' =>
      have hbefore : c.seed.isSome := by rwa [seed_hear] at hseed
      obtain ⟨hr, howed⟩ := hs hbefore
      rw [hear_again hs hbefore, ← isSome_status, pending_setCommitBlock, status_setCommitBlock_of_isSome hr,
        isSome_status]
      exact ⟨hr, howed⟩
    | seedRevealed committer h' seed =>
      have hfinal : (c.markRevealed (some seed) time).finished := finished_markRevealed _ _
      refine ⟨isSome_record hfinal, fun howed => ?_⟩
      rw [pending_hear] at howed
      exact nomatch howed.1
    | _ => exact hs hseed
  | seedRevealed committer h seed =>
    have hfinal : c.finished := hs
    show (c.hear e' time).finished
    rw [finished, (finished_hear hfinal hc).1]
    exact hfinal
  | _ => trivial

theorem Settled.same (hs : c.Settled e) (hc : c.Sound) : (c.hear e time).status = c.status ∧
    (c.hear e time).pending = c.pending ∧ (c.hear e time).written = c.written := by
  cases e with
  | commitRegistered sender h block =>
    by_cases hseed : c.seed.isSome
    · obtain ⟨hr, -⟩ := hs hseed
      rw [hear_again hs hseed, pending_setCommitBlock, status_setCommitBlock_of_isSome hr,
        written_setCommitBlock hr]
      exact ⟨rfl, rfl, rfl⟩
    · rw [hear_commit_unseeded hseed]
      exact ⟨rfl, rfl, rfl⟩
  | seedRevealed committer h seed =>
    have hfinal : c.finished := hs
    obtain ⟨hstatus, hpending⟩ := finished_hear (e := .seedRevealed committer h seed) hfinal hc
    refine ⟨hstatus, hpending.trans (hc.not_pending hfinal).symm, ?_⟩
    exact congrArg (·.map (·.updatedAt)) (record_markRevealed hfinal)
  | _ => exact ⟨rfl, rfl, rfl⟩

theorem Settled.hears (hs : c.Settled e) (hc : c.Sound) (hheard : Hears es c c') : c'.Settled e := by
  induction hheard with
  | nil c => exact hs
  | cons time rest ih => exact ih (hs.hear hc) hc.hear

theorem settled_of_hears (hc : c.Sound) (hheard : Hears es c c') : ∀ e ∈ es, c'.Settled e := by
  induction hheard with
  | nil c => exact fun e he => nomatch he
  | cons time rest ih =>
    intro e he
    rcases List.mem_cons.1 he with rfl | he
    · -- settled when it is heard, and never unsettled by what is heard later
      exact settled_hear.hears hc.hear rest
    · exact ih hc.hear e he

theorem same_of_settled (hs : ∀ e ∈ es, c.Settled e) (hc : c.Sound) (hheard : Hears es c c') :
    c'.status = c.status ∧ c'.pending = c.pending ∧ c'.written = c.written := by
  induction hheard with
  | nil c => exact ⟨rfl, rfl, rfl⟩
  | cons time rest ih =>
    obtain ⟨hstatus, hpending, hwritten⟩ := (hs _ List.mem_cons_self).same hc
    obtain ⟨hstatus', hpending', hwritten'⟩ :=
      ih (fun e he => (hs e (List.mem_cons_of_mem _ he)).hear hc) hc.hear
    exact ⟨hstatus'.trans hstatus, hpending'.trans hpending, hwritten'.trans hwritten⟩

end Again

section Passes

theorem seed_hears (hheard : Hears es c c') : c'.seed = (latest OracleEvent.seed? es).or c.seed := by
  induction hheard with
  | nil c => rfl
  | cons time rest ih => rw [ih, seed_hear, latest, Option.or_assoc]

theorem block_hears (hc : c.seed.isSome) (hheard : Hears es c c') :
    c'.block = (latest OracleEvent.block? es).or c.block := by
  induction hheard with
  | nil c => rfl
  | @cons e es c c' time rest ih =>
    have hseed : (c.hear e time).seed.isSome := by
      rw [seed_hear]
      cases e.seed? with
      | none => exact hc
      | some seed => rfl
    rw [ih hseed, block_hear hc, latest, Option.or_assoc]

structure Alike (B : Prop) (c c' : Card) : Prop where
  seed : c.seed = c'.seed
  status : c.status = c'.status
  pending : c.pending = c'.pending
  block : B → c.block = c'.block

theorem Alike.refl (c : Card) : Alike B c c :=
  ⟨rfl, rfl, rfl, fun _ => rfl⟩

theorem Alike.symm (h : Alike B c d) : Alike B d c :=
  ⟨h.seed.symm, h.status.symm, h.pending.symm, fun hB => (h.block hB).symm⟩

theorem Alike.trans {b : Card} (h : Alike B b c) (h' : Alike B c d) : Alike B b d :=
  ⟨h.seed.trans h'.seed, h.status.trans h'.status, h.pending.trans h'.pending,
    fun hB => (h.block hB).trans (h'.block hB)⟩

theorem Alike.hear (h : Alike B c d) : Alike B (c.hear e time) (d.hear e time') where
  seed := by rw [seed_hear, seed_hear, h.seed]
  pending := by rw [pending_hear, pending_hear, h.pending]
  status := by
    cases e with
    | commitRegistered sender hash block =>
      simp only [Card.hear, h.seed]
      split
      · simp only [status_proceed, status_setCommitBlock, pending_setCommitBlock, h.status, h.pending]
      · exact h.status
    | seedRevealed committer hash seed =>
      have hfinished : c.finished = d.finished := by rw [finished, finished, h.status]
      simp only [Card.hear, status_markRevealed, hfinished, h.status]
    | _ => exact h.status
  block := by
    intro hB
    cases e with
    | commitRegistered sender hash block =>
      simp only [Card.hear, h.seed]
      split
      · rw [block_proceed, block_proceed, block_setCommitBlock, block_setCommitBlock]
      · exact h.block hB
    | seedRevealed committer hash seed =>
      simp only [Card.hear, block_markRevealed]
      exact h.block hB
    | _ => exact h.block hB

theorem Alike.hears (h : Alike B c d) (hc : Hears es c c') (hd : Hears es d d') : Alike B c' d' := by
  induction es generalizing c d with
  | nil =>
    cases hc
    cases hd
    exact h
  | cons e es ih =>
    cases hc with
    | cons time restc =>
      cases hd with
      | cons time' restd => exact ih h.hear restc restd

/-- A second pass over the same events leaves all as it was after the first. -/
theorem hears_twice (hc : c.Sound) (h : Hears es c c') (h' : Hears es c' d) :
    Alike c.seed.isSome c' d ∧ d.written = c'.written := by
  obtain ⟨hstatus, hpending, hwritten⟩ := same_of_settled (settled_of_hears hc h) (hc.hears h) h'
  have hseed : c'.seed = d.seed := by
    rw [seed_hears h', seed_hears h, ← Option.or_assoc, Option.or_self]
  refine ⟨⟨hseed, hstatus.symm, hpending.symm, fun hB => ?_⟩, hwritten⟩
  have hc' : c'.seed.isSome := by
    rw [seed_hears h]
    cases latest OracleEvent.seed? es with
    | none => exact hB
    | some seed => rfl
  rw [block_hears hc' h', block_hears hB h, ← Option.or_assoc, Option.or_self]

theorem Hears.append (h : Hears es c d) (h' : Hears ps d c') : Hears (es ++ ps) c c' := by
  induction h with
  | nil c => exact h'
  | cons time rest ih => exact .cons time (ih h')

theorem hears_append (h : Hears (es ++ ps) c c') : ∃ d, Hears es c d ∧ Hears ps d c' := by
  induction es generalizing c with
  | nil => exact ⟨c, .nil c, h⟩
  | cons e es ih =>
    cases h with
    | cons time rest =>
      obtain ⟨d, hes, hps⟩ := ih rest
      exact ⟨d, .cons time hes, hps⟩

/-- To hear a prefix first, and then all, comes to the same as to hear all once. -/
theorem hears_beginning (hc : c.Sound) (hbegins : ps <+: es) (hp : Hears ps c c') (he : Hears es c' d)
    (honce : Hears es c d') : Alike c.seed.isSome d d' := by
  -- after the second pass over the prefix the cards agree, and what comes then is heard from there
  obtain ⟨rest, rfl⟩ := hbegins
  obtain ⟨again, hagain, hd⟩ := hears_append he
  obtain ⟨first, hfirst, hd'⟩ := hears_append honce
  have hsame : Alike c.seed.isSome again first :=
    (hears_twice hc hp hagain).1.symm.trans ((Alike.refl c).hears hp hfirst)
  exact hsame.hears hd hd'

end Passes

end Repository.Card

end CommitReveal
