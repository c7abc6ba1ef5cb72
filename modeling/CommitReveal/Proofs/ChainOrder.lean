import CommitReveal.Proofs.Passage
import CommitReveal.Proofs.ScanRun

/-! A step of a scan calls the handlers in the order of the chain, and in whatever order the node lists the
logs, nothing comes of it. -/
namespace CommitReveal.Agent

open Program
open Repository (cursorKey)

variable {s : Settings} {e e' : EventSync} {w : ScanWindow} {n : Nat} {t : Transcript interface}

/-- What a step still does when the logs have been dispatched: it stores where the scan stands, and reports. -/
def Request.Closing : Request → Prop
  | .store (.call (.set k _)) => k = cursorKey
  | .notify _ | .abort _ => True
  | _ => False

theorem called_scanWindow {logs : List EventLog} (h : (scanWindow s e w logs).Reaches t (.done e')) :
    ∃ during after, t = during ++ after ∧
      Called w.mode (calls e.handlers ((inChainOrder logs).filterMap (heard? s.agent))) during ∧
      ∀ x ∈ after, x.request.Closing := by
  obtain ⟨during, after, progress, rfl, hduring, hafter⟩ := Reaches.of_bind h
  have hclosing : (moveBehind e w logs progress).Only Request.Closing :=
    only_moveBehind (fun _ => trivial) (fun _ => rfl) (fun _ => trivial) e w logs progress
  exact ⟨during, after, rfl, called_dispatchAll hduring, Only.of_reaches hclosing hafter⟩

/-- A step that has scanned a window has read the head and fetched the logs, and gone on with these. -/
theorem scanned_of_reaches (h : (scanStep s e).Reaches t (.done (.scanned w n, e'))) :
    ∃ head initial limit logs during, n = logs.length ∧
      t = ⟨.chain .blockNumber, .ok head⟩ :: ⟨.logs w initial limit, some logs⟩ :: during ∧
      (scanWindow s e w logs).Reaches during (.done e') ∧
      (scanStep s e).Reaches [⟨.chain .blockNumber, .ok head⟩]
        (.ask (.logs w initial limit) (scanFetched s e w)) := by
  have hidle {u : Transcript interface} :
      ¬(do return (← idle s, e) : Activity (StepOutcome × EventSync)).Reaches u
        (.done (.scanned w n, e')) := by
    intro hu
    cases hu with
    | asked hu =>
      cases hu with
      | @asked _ _ wake _ _ hu => cases wake <;> cases hu
  cases h with
  | @asked _ _ answer t _ h =>
    cases answer with
    | error cause =>
      cases h with
      | asked h => exact absurd h hidle
    | ok head =>
      have hhead : (scanStep s e).Reaches [⟨.chain .blockNumber, .ok head⟩] _ := .asked (.here _)
      simp only [done_bind] at h hhead
      cases hselect : ScanWindow.select (Word.saturatingSub head e.confirmations) e.cursor with
      | error f =>
        rw [hselect] at h
        cases h with
        | @asked _ _ never => cases never
      | ok window =>
        rw [hselect] at h hhead
        cases window with
        | none => exact absurd h hidle
        | some window =>
          cases h with
          | @asked _ _ answer during _ h =>
            cases answer with
            | none => cases h
            | some logs =>
              simp only [done_bind] at h
              obtain ⟨during, last, scanned, rfl, hscan, hend⟩ := Reaches.of_bind h
              cases hend
              rw [List.append_nil]
              refine ⟨head, _, _, logs, during, rfl, rfl, hscan, ?_⟩
              refine (congrArg (Reaches _ _) (congrArg (Program.ask _) (funext fun answer => ?_))).mp hhead
              cases answer <;> rfl

theorem scanFetched_perm {logs logs' : List EventLog} (hperm : logs'.Perm logs)
    (hdistinct : (logs.map place).Nodup) :
    scanFetched s e w (some logs') = scanFetched s e w (some logs) := by
  have hempty : logs'.isEmpty = logs.isEmpty := by
    rw [Bool.eq_iff_iff, List.isEmpty_iff_length_eq_zero, List.isEmpty_iff_length_eq_zero, hperm.length_eq]
  have hpersist (cursor : Word) : persistCursor cursor w logs' = persistCursor cursor w logs := by
    unfold persistCursor
    rw [hempty]
  have hscan : scanWindow s e w logs' = scanWindow s e w logs := by
    unfold scanWindow
    simp only [inChainOrder_perm hperm hdistinct, hpersist]
  simp only [scanFetched, hscan, hperm.length_eq]

/-- Each handler is called for each event that concerns the agent, whatever comes of the calls before, and
in whatever order the node lists the logs. -/
theorem handlers_called_in_chain_order {σ τ : Passage}
    (h : (scanStep s e).EndsAfter among σ t (.scanned w n, e') τ) :
    ∃ head initial limit logs during after,
      t = ⟨.chain .blockNumber, .ok head⟩ :: ⟨.logs w initial limit, some logs⟩ :: (during ++ after) ∧
      n = logs.length ∧ ChainOrdered logs (inChainOrder logs) ∧
      Called w.mode (calls e.handlers ((inChainOrder logs).filterMap (heard? s.agent))) during ∧
      (∀ x ∈ after, x.request.Closing) ∧
      ∀ logs', logs'.Perm logs → (logs.map place).Nodup →
        (scanStep s e).EndsAfter among σ
          (⟨.chain .blockNumber, .ok head⟩ :: ⟨.logs w initial limit, some logs'⟩ :: (during ++ after))
          (.scanned w n, e') τ := by
  obtain ⟨head, initial, limit, logs, rest, hn, rfl, hscan, hfetch⟩ := scanned_of_reaches h.reaches
  obtain ⟨during, after, rfl, hcalled, hclosing⟩ := called_scanWindow hscan
  refine ⟨head, initial, limit, logs, during, after, rfl, hn, chainOrdered_inChainOrder logs, hcalled, hclosing,
    fun logs' hperm hdistinct => ?_⟩
  exact h.otherwise hfetch (scanFetched_perm hperm hdistinct) fun _ _ => id

def consumed : OracleEvent :=
  .randomConsumed (.fill 20 5) (.fill 32 4)

def threeLogs : List EventLog :=
  [loggedAt 11 0 awaited, loggedAt 11 1 (.subscribed (.fill 20 9) (.fill 20 5) (.fill 32 3)),
    loggedAt 12 0 consumed]

theorem inChainOrder_threeLogs {logs : List EventLog} (hperm : logs.Perm threeLogs) :
    inChainOrder logs = threeLogs := by
  have hsorted : inChainOrder threeLogs = threeLogs := List.mergeSort_of_pairwise (by decide)
  rw [inChainOrder_perm hperm (by decide), hsorted]

def twoHandlers : EventSync :=
  .start 10 [.outside "first", .outside "second"] 5

/-- A step of that scan: the first handler fails at the first event. -/
def failingOnce (logs : List EventLog) : Transcript interface :=
  [⟨.chain .blockNumber, .ok 25⟩,
    ⟨.logs ⟨10, 20, .live⟩ (.ofMillis usual.timings.backoffInitial) (.ofMillis usual.timings.backoffLimit),
      some logs⟩,
    ⟨.deliver "first" awaited .live, .error (.startup "no room")⟩,
    ⟨.notify (.handlerFailed "first" .subscribe (.startup "no room")), ()⟩,
    ⟨.deliver "second" awaited .live, .ok ()⟩,
    ⟨.deliver "first" consumed .live, .ok ()⟩,
    ⟨.deliver "second" consumed .live, .ok ()⟩,
    ⟨.store (.call (.set cursorKey (Bytes.ofNatBE 8 21))), .ok ()⟩,
    ⟨.notify (.cursorAdvanced 21), ()⟩]

def behindTwo : EventSync :=
  ⟨21, ⟨⟨10, 20, 0, 1, 2, 1, 0, 0, none⟩, some 20, 10⟩, [.outside "first", .outside "second"], 5⟩

theorem endsAlone_failingOnce {logs : List EventLog} (hperm : logs.Perm threeLogs) (σ : Shared) :
    EndsAlone (scanStep usual twoHandlers) σ (failingOnce logs)
      (.scanned ⟨10, 20, .live⟩ logs.length, behindTwo)
      { σ with store := (σ.store.perform (.set cursorKey (Bytes.ofNatBE 8 21))).2 } := by
  cases logs with
  | nil => cases hperm.length_eq
  | cons log rest =>
    refine .ask rfl (.ask rfl ?_)
    show EndsAlone ((scanWindow usual twoHandlers ⟨10, 20, .live⟩ (log :: rest)).bind _) _ _ _ _
    unfold scanWindow
    rw [inChainOrder_threeLogs hperm]
    refine .ask rfl (.ask rfl (.ask rfl (.ask rfl (.ask rfl (.ask (.inr ⟨.inl rfl, rfl⟩) ?_)))))
    exact .ask rfl (.done _ _)

theorem handlers_called_in_chain_order_reversed : ∃ (σ τ : Passage) (during after : Transcript interface),
    (scanStep usual twoHandlers).EndsAfter among σ (failingOnce threeLogs.reverse)
      (.scanned ⟨10, 20, .live⟩ 3, behindTwo) τ ∧
    (failingOnce threeLogs.reverse).drop 2 = during ++ after ∧
    Called .live [(.outside "first", awaited), (.outside "second", awaited), (.outside "first", consumed),
      (.outside "second", consumed)] during ∧
    (scanStep usual twoHandlers).EndsAfter among σ (failingOnce threeLogs)
      (.scanned ⟨10, 20, .live⟩ 3, behindTwo) τ := by
  have hreverse : threeLogs.reverse.Perm threeLogs := List.reverse_perm threeLogs
  let σ : Shared := ⟨.memory .empty, .empty 1, []⟩
  obtain ⟨left, hrun⟩ := endsAlone_failingOnce hreverse σ σ
  obtain ⟨head, initial, limit, logs, during, after, ht, -, -, hcalled, -, hperm⟩ :=
    handlers_called_in_chain_order hrun
  obtain ⟨hhead, hrest⟩ := List.cons.inj ht
  obtain ⟨hlogs, hcalls⟩ := List.cons.inj hrest
  cases hhead
  cases hlogs
  rw [inChainOrder_threeLogs hreverse] at hcalled
  have hsame := hperm threeLogs hreverse.symm (by decide)
  rw [← hcalls] at hsame
  exact ⟨_, _, during, after, hrun, hcalls, hcalled, hsame⟩

end CommitReveal.Agent
