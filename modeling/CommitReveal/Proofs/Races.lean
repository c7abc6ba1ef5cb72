import CommitReveal.Simulation.World

/-! Races. Where two branches are ready at the same moment either goes on, and no branch does that is not ready.
Whichever it is, a look at the logs of a window fetches just that window or nothing. -/
namespace CommitReveal.Simulation.World

variable {home : Nat} {w v : World} {first second : Bool} {branch : Option Branch} {before : Option Wait}
  {window : ScanWindow} {initial limit interval : Duration} {begins : Bool}
  {reply : Reply (Option (List EventLog))}

theorem exists_flips_race (w : World) (first second : Bool) :
    ∃ flips, (w.race first second).2 = { w with flips } := by
  cases first <;> cases second <;> exact ⟨_, rfl⟩

theorem exists_flips_of_race (h : w.race first second = (branch, v)) : ∃ flips, v = { w with flips } := by
  obtain ⟨flips, hflips⟩ := w.exists_flips_race first second
  exact ⟨flips, (congrArg Prod.snd h).symm.trans hflips⟩

theorem race_eq_first (h : w.race first second = (some .first, v)) : first := by
  cases first with
  | true => rfl
  | false => cases second <;> cases h

theorem race_flip (h : w.flip.1 = true) : w.race true true = (some .second, w.flip.2) := by
  unfold race
  dsimp only
  rw [h]
  rfl

theorem race_no_flip (h : w.flip.1 = false) : w.race true true = (some .first, w.flip.2) := by
  unfold race
  dsimp only
  rw [h]
  rfl

theorem pollPause_cancelled {due : Nat} (h : w.pollPause home due = (.answer .cancelled, v)) :
    w.isCancelled home ∧ ∃ flips, v = { w with flips } := by
  unfold pollPause at h
  split at h
  · rename_i hrace
    cases h
    exact ⟨race_eq_first hrace, exists_flips_of_race hrace⟩
  · cases h
  · cases h

theorem exists_flips_of_pollPause (w : World) (home due : Nat) :
    ∃ flips, (w.pollPause home due).2 = { w with flips } := by
  unfold pollPause
  split <;> exact exists_flips_of_race (by assumption)

def Untouched (w v : World) : Prop :=
  ∃ chain calls notices flips, v = { w with chain, calls, notices, flips }

theorem Untouched.refl (w : World) : w.Untouched w :=
  ⟨w.chain, w.calls, w.notices, w.flips, rfl⟩

def found? (w : World) (first last : Word) : Option (List EventLog) :=
  match (w.callChain (.filterLogs first last)).1 with
  | .ok (.ok logs) => some logs
  | _ => none

def Fetches (w : World) (window : ScanWindow) (v : World) : Prop :=
  v.calls = w.calls ++ [.filterLogs window.first window.last] ∧ w.Untouched v

theorem fetches_of_eq (h : w.fetchLogs window interval begins = (reply, v)) : w.Fetches window v := by
  unfold fetchLogs at h
  split at h
  all_goals
    rename_i heq
    obtain ⟨-, rfl⟩ := Prod.mk.inj heq
    obtain ⟨-, rfl⟩ := Prod.mk.inj h
    exact ⟨rfl, _, _, _, _, rfl⟩

theorem found?_of_answer {logs : Option (List EventLog)}
    (h : w.fetchLogs window interval begins = (.answer logs, v)) :
    ∃ found, logs = some found ∧ w.found? window.first window.last = some found := by
  unfold fetchLogs at h
  unfold found?
  split at h
  · rename_i found v hcall
    cases h
    exact ⟨found, rfl, by rw [hcall]⟩
  · cases h
  · cases h

theorem found?_eq_none (h : w.fetchLogs window interval begins = (reply, v)) (hvain : ∀ logs, reply ≠ .answer logs) :
    w.found? window.first window.last = none := by
  unfold fetchLogs at h
  unfold found?
  split at h
  · cases h
    exact absurd rfl (hvain _)
  · rename_i hcall
    rw [hcall]
  · rename_i hcall
    rw [hcall]

/-- What a look at the logs of a window comes to. Only cancellation ends the trying without them. -/
inductive Looked (w : World) (home : Nat) (window : ScanWindow) : Reply (Option (List EventLog)) → World → Prop
  | found {logs : List EventLog} {v : World} (fetches : w.Fetches window v)
    (found : w.found? window.first window.last = some logs) : Looked w home window (.answer (some logs)) v
  | failed {reply : Reply (Option (List EventLog))} {v : World} (fetches : w.Fetches window v)
    (found : w.found? window.first window.last = none)
    (ends : ∀ logs, reply = .answer logs → logs = none ∧ w.isCancelled home) : Looked w home window reply v
  | unfetched {reply : Reply (Option (List EventLog))} (flips : List Bool)
    (ends : ∀ logs, reply = .answer logs → logs = none ∧ w.isCancelled home) :
    Looked w home window reply { w with flips }

theorem looked_tryLogs (h : w.tryLogs home window interval begins = (reply, v)) : w.Looked home window reply v := by
  unfold tryLogs at h
  split at h
  · rename_i wait anew v' hfetch
    cases h
    refine .failed (fetches_of_eq hfetch) (found?_eq_none hfetch nofun) fun logs h => ?_
    split at h
    · cases h
      exact ⟨rfl, by assumption⟩
    · cases h
  · rename_i hwait
    cases reply with
    | answer logs =>
      obtain ⟨found, rfl, hfound⟩ := found?_of_answer h
      exact .found (fetches_of_eq h) hfound
    | wait wait anew => exact absurd h (hwait wait anew v)
    | fault f => exact .failed (fetches_of_eq h) (found?_eq_none h nofun) nofun

theorem Looked.of_flips {flips : List Bool} (h : Looked { w with flips } home window reply v) :
    w.Looked home window reply v := by
  have hfetches (h : Fetches { w with flips } window v) : w.Fetches window v := by
    obtain ⟨hcalls, chain, calls, notices, flips, rfl⟩ := h
    exact ⟨hcalls, chain, calls, notices, flips, rfl⟩
  cases h with
  | found fetches found => exact .found (hfetches fetches) found
  | failed fetches found ends => exact .failed (hfetches fetches) found ends
  | unfetched flips ends => exact .unfetched flips ends

/-- However often fetching has failed before, a look goes for the window itself. -/
theorem looked_pollLogs (h : w.pollLogs home window initial limit before = (reply, v)) :
    w.Looked home window reply v := by
  unfold pollLogs at h
  split at h
  · split at h
    · rename_i hrace
      obtain ⟨flips, rfl⟩ := exists_flips_of_race hrace
      cases h
      exact .unfetched flips fun logs h => ⟨by cases h; rfl, race_eq_first hrace⟩
    · rename_i hrace
      obtain ⟨flips, rfl⟩ := exists_flips_of_race hrace
      exact (looked_tryLogs h).of_flips
    · rename_i hrace
      obtain ⟨flips, rfl⟩ := exists_flips_of_race hrace
      cases h
      exact .unfetched flips nofun
  · split at h
    · rename_i hrace
      obtain ⟨flips, rfl⟩ := exists_flips_of_race hrace
      cases h
      exact .unfetched flips fun logs h => ⟨by cases h; rfl, race_eq_first hrace⟩
    · rename_i hrace
      obtain ⟨flips, rfl⟩ := exists_flips_of_race hrace
      exact (looked_tryLogs h).of_flips

theorem Looked.untouched (h : w.Looked home window reply v) : w.Untouched v := by
  cases h with
  | found fetches found => exact fetches.2
  | failed fetches found ends => exact fetches.2
  | unfetched flips ends => exact ⟨_, _, _, flips, rfl⟩

theorem Looked.calls (h : w.Looked home window reply v) : w.calls <+: v.calls := by
  cases h with
  | found fetches found => exact fetches.1 ▸ List.prefix_append _ _
  | failed fetches found ends => exact fetches.1 ▸ List.prefix_append _ _
  | unfetched flips ends => exact List.prefix_rfl

end CommitReveal.Simulation.World
