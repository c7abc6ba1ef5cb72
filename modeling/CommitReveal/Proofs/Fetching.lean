import CommitReveal.Proofs.Course
import CommitReveal.Proofs.ScanRun

/-! Fetching the logs of a window, look by look. As often as it fails, the same window is fetched again, and nothing
is changed by that; the trying ends with the logs, or with cancellation. -/
namespace CommitReveal.Simulation

open Agent (Request Activity)

variable {O : World → World → Prop} {home : Nat} {w v : World} {before : Option Wait} {window : ScanWindow}
  {initial limit interval : Duration} {begins : Bool} {logs : Option (List EventLog)} {looks later : List Look}
  {reply : World.Reply (Option (List EventLog))} {n : Nat}

namespace World

theorem calls_callChain (w : World) (c : Chain.Call) : w.calls <+: (w.callChain c).2.calls := by
  show w.calls <+: if isTraced c then w.calls ++ [c] else w.calls
  split
  · exact List.prefix_append _ _
  · exact List.prefix_rfl

theorem calls_tryReceipt {tx : TxHash} {vain : Reply (Option TxOutcome)} :
    w.calls <+: (w.tryReceipt tx vain).2.calls := by
  have hcalls := w.calls_callChain (.transactionReceipt tx)
  unfold tryReceipt
  split <;> simpa only [*] using hcalls

theorem calls_pollReceipt {tx : TxHash} {wait : ReceiptWait} :
    w.calls <+: (w.pollReceipt home tx wait begins).2.calls := by
  unfold pollReceipt
  dsimp only
  split
  all_goals
    rename_i hrace
    obtain ⟨flips, rfl⟩ := exists_flips_of_race hrace
  · exact List.prefix_rfl
  · exact calls_tryReceipt (w := { w with flips })
  · exact List.prefix_rfl

theorem calls_pollQueue : w.calls <+: (w.pollQueue home).2.calls := by
  unfold pollQueue
  split
  · exact List.prefix_rfl
  · split
    all_goals
      rename_i hrace
      obtain ⟨flips, rfl⟩ := exists_flips_of_race hrace
      exact List.prefix_rfl

theorem calls_pollPause {due : Nat} : w.calls <+: (w.pollPause home due).2.calls := by
  obtain ⟨flips, hsame⟩ := w.exists_flips_of_pollPause home due
  have hcalls : (w.pollPause home due).2.calls = w.calls := by rw [hsame]
  exact hcalls.symm ▸ List.prefix_rfl

theorem calls_poll (w : World) (home : Nat) (r : Request) (before : Option Wait) :
    w.calls <+: (w.poll home r before).2.calls := by
  cases r with
  | store r => cases r <;> exact List.prefix_rfl
  | chain c =>
    have hcalls := w.calls_callChain c
    dsimp only [poll]
    split <;> simpa only [*] using hcalls
  | memory r => cases r <;> exact List.prefix_rfl
  | deliver handler event mode =>
    dsimp only [poll, deliver]
    split <;> exact List.prefix_rfl
  | spawn r =>
    dsimp only [poll, spawn]
    split <;> exact List.prefix_rfl
  | sleep ms => rcases before with _ | _ | _ | _ | _ | _ <;> exact List.prefix_rfl
  | pauseUntil time => exact calls_pollPause
  | nextReveal => exact calls_pollQueue
  | receipt tx period timeout =>
    rcases before with _ | _ | wait | _ | _ | _
    case some.receipt => exact calls_pollReceipt
    all_goals
      dsimp only [poll]
      split
      · exact calls_pollReceipt
      · exact List.prefix_rfl
  | logs window initial limit => exact (looked_pollLogs (Prod.eta _).symm).calls
  | join id =>
    dsimp only [poll]
    split <;> exact List.prefix_rfl
  | _ => exact List.prefix_rfl

end World

namespace Look

/-- The sends and log queries of a look. -/
def calls (x : Look) : List Chain.Call :=
  x.after.calls.drop x.before.calls.length

def failed (x : Look) : Bool :=
  x.calls.any fun
    | .filterLogs first last => (x.before.found? first last).isNone
    | _ => false

def Quiet (x : Look) : Prop :=
  x.calls = [] ∧ x.before.Untouched x.after

theorem calls_eq_nil {x : Look} (h : x.after.calls = x.before.calls) : x.calls = [] := by
  unfold calls
  rw [h, List.drop_length]

theorem failed_of_calls_eq_nil {x : Look} (h : x.calls = []) : x.failed = false := by
  unfold failed
  rw [h]
  rfl

end Look

/-- The sends and log queries of all looks. -/
def traced (looks : List Look) : List Chain.Call :=
  looks.flatMap Look.calls

/-- How often logs were fetched and none came. -/
def failures (looks : List Look) : Nat :=
  looks.countP Look.failed

@[simp] theorem traced_append : traced (looks ++ later) = traced looks ++ traced later :=
  List.flatMap_append

@[simp] theorem failures_append : failures (looks ++ later) = failures looks + failures later :=
  List.countP_append

theorem traced_eq_nil (h : ∀ look ∈ looks, look.calls = []) : traced looks = [] :=
  List.flatMap_eq_nil_iff.2 h

theorem failures_eq_zero (h : ∀ look ∈ looks, look.calls = []) : failures looks = 0 :=
  List.countP_eq_zero.2 fun look hlook => by simp [Look.failed_of_calls_eq_nil (h look hlook)]

section Calls

variable {r : Request} {b : r.Answer} {α : Type} {p : Activity α} {a : α}

theorem calls_append (w : World) (home : Nat) (r : Request) (before : Option Wait) :
    (w.poll home r before).2.calls = w.calls ++ (⟨r, w, (w.poll home r before).2⟩ : Look).calls :=
  (List.prefix_iff_eq_append.1 (w.calls_poll home r before)).symm

theorem Awaits.calls_eq (hO : ∀ w v, O w v → v.calls = w.calls) (h : Awaits O home r before w looks b v) :
    v.calls = w.calls ++ traced looks := by
  induction h with
  | @answered before w v b reply =>
    have hcalls := calls_append w home r before
    rw [reply] at hcalls
    exact hcalls.trans (congrArg (w.calls ++ ·) (List.append_nil _).symm)
  | @waited before w w' v v' wait anew looks b reply others later ih =>
    have hcalls := calls_append w home r before
    rw [reply] at hcalls
    rw [ih, hO _ _ others, hcalls, List.append_assoc]
    rfl

theorem Course.calls_eq (hO : ∀ w v, O w v → v.calls = w.calls) (h : Course O home p w looks a v) :
    v.calls = w.calls ++ traced looks := by
  induction h with
  | done a w => exact (List.append_nil _).symm
  | ask awaits rest ih => rw [ih, awaits.calls_eq hO, traced_append, List.append_assoc]

end Calls

section Fetching

variable {r : Request}

theorem calls_of_fetches (h : w.Fetches window v) :
    (⟨r, w, v⟩ : Look).calls = [.filterLogs window.first window.last] := by
  unfold Look.calls
  rw [h.1, List.drop_left]

theorem failed_of_fetches (h : w.Fetches window v) :
    (⟨r, w, v⟩ : Look).failed = (w.found? window.first window.last).isNone := by
  unfold Look.failed
  rw [calls_of_fetches h, List.any_cons, List.any_nil, Bool.or_false]

theorem failures_of_found {found : List EventLog} (h : w.Fetches window v)
    (hfound : w.found? window.first window.last = some found) : failures [⟨r, w, v⟩] = 0 :=
  List.countP_cons_of_neg (by rw [failed_of_fetches h, hfound]; exact Bool.false_ne_true)

theorem failures_of_failed (h : w.Fetches window v) (hfound : w.found? window.first window.last = none) :
    failures [⟨r, w, v⟩] = 1 :=
  List.countP_cons_of_pos (by rw [failed_of_fetches h, hfound]; rfl)

theorem calls_of_vain (h : w.Looked home window reply v) (hvain : ∀ logs, reply ≠ .answer (some logs)) :
    (⟨r, w, v⟩ : Look).calls = List.replicate (failures [⟨r, w, v⟩]) (.filterLogs window.first window.last) := by
  cases h with
  | found fetches found => exact absurd rfl (hvain _)
  | failed fetches found ends =>
    rw [calls_of_fetches fetches, failures_of_failed fetches found]
    rfl
  | unfetched flips ends =>
    have hnone : Look.calls ⟨r, w, { w with flips }⟩ = [] := Look.calls_eq_nil rfl
    rw [hnone, failures_eq_zero (List.forall_mem_singleton.2 hnone)]
    rfl

theorem traced_of_waits (h : ∀ look ∈ looks, look.calls =
      List.replicate (failures [look]) (.filterLogs window.first window.last)) :
    traced looks = List.replicate (failures looks) (.filterLogs window.first window.last) := by
  induction looks with
  | nil => rfl
  | cons look looks ih =>
    obtain ⟨hlook, hlooks⟩ := List.forall_mem_cons.1 h
    rw [← List.singleton_append, failures_append, ← List.replicate_append_replicate, ← hlook, ← ih hlooks]
    rfl

/-- However long it takes, the window is all that is fetched: once for each failure, and once more if its logs
come. Only cancellation lets them not come. -/
theorem traced_of_awaits (h : Awaits O home (.logs window initial limit) none w looks logs v) :
    traced looks = List.replicate (failures looks + if logs.isSome then 1 else 0)
      (.filterLogs window.first window.last) ∧ (logs = none → v.isCancelled home) := by
  obtain ⟨waits, last, w', rfl, hwaits, hlast⟩ := h.last
  have htraced := traced_of_waits fun look hlook => by
    obtain ⟨before, wait, anew, hreply⟩ := hwaits look hlook
    exact calls_of_vain (r := look.request) (World.looked_pollLogs hreply) nofun
  have hlooked : w'.Looked home window (.answer logs) v := World.looked_pollLogs hlast
  rw [traced_append, failures_append, htraced]
  cases logs with
  | none =>
    refine ⟨?_, fun _ => ?_⟩
    · rw [← List.replicate_append_replicate, ← List.replicate_append_replicate, ← calls_of_vain hlooked nofun]
      exact (List.append_assoc _ _ []).symm
    · cases hlooked with
      | failed fetches found ends =>
        obtain ⟨-, chain, calls, notices, flips, rfl⟩ := fetches
        exact (ends none rfl).2
      | unfetched flips ends => exact (ends none rfl).2
  | some logs =>
    obtain ⟨fetches, found⟩ : w'.Fetches window v ∧ w'.found? window.first window.last = some logs := by
      cases hlooked with
      | found fetches found => exact ⟨fetches, found⟩
      | failed fetches found ends => cases (ends _ rfl).1
      | unfetched flips ends => cases (ends _ rfl).1
    refine ⟨?_, nofun⟩
    rw [failures_of_found fetches found, Nat.add_zero]
    exact (congrArg (_ ++ ·) ((List.append_nil _).trans (calls_of_fetches fetches))).trans List.replicate_succ'.symm

theorem untouched_pollLogs : w.Untouched (w.pollLogs home window initial limit before).2 :=
  (World.looked_pollLogs (Prod.eta _).symm).untouched

end Fetching

namespace World

/-- The chain will refuse logs so many times more, and no other failure of it is planned. -/
def Refuses (w : World) (n : Nat) : Prop :=
  ∃ c, w.chain = .scripted c ∧ c.failures = [] ∧ c.filterFailures = n

theorem perform_of_unplanned {c : ScriptedChain} (hplan : c.failures = []) (call : Chain.Call) :
    c.perform call = ScriptedChain.answer call c := by
  have hfail : c.fail (.ofCall call) = (none, c) := by
    unfold ScriptedChain.fail
    rw [hplan]
    rfl
  unfold ScriptedChain.perform
  rw [hfail]

theorem callChain_of_unplanned {c : ScriptedChain} (hchain : w.chain = .scripted c) (hplan : c.failures = [])
    (call : Chain.Call) : w.callChain call = (.ok (ScriptedChain.answer call c).1,
      { w with
        chain := .scripted (ScriptedChain.answer call c).2
        calls := if isTraced call then w.calls ++ [call] else w.calls }) := by
  rw [← perform_of_unplanned hplan]
  unfold callChain
  rw [hchain]
  rfl

theorem Refuses.blockNumber (h : w.Refuses n) : (w.callChain .blockNumber).2.Refuses n ∧
    (w.callChain .blockNumber).2.homes = w.homes := by
  obtain ⟨c, hchain, hplan, rfl⟩ := h
  rw [callChain_of_unplanned hchain hplan]
  refine ⟨⟨_, rfl, ?_⟩, rfl⟩
  show c.blockNumber.2.failures = [] ∧ c.blockNumber.2.filterFailures = c.filterFailures
  unfold ScriptedChain.blockNumber
  split
  · exact ⟨hplan, rfl⟩
  · exact ⟨hplan, rfl⟩

theorem Refuses.fetchLogs_zero (h : w.Refuses 0) (window : ScanWindow) (interval : Duration) (begins : Bool) :
    ∃ logs v, w.fetchLogs window interval begins = (.answer (some logs), v) := by
  obtain ⟨c, hchain, hplan, hnone⟩ := h
  have hanswer : (ScriptedChain.answer (.filterLogs window.first window.last) c).1 =
      .ok (c.logsBetween window.first window.last) := by
    show (c.filterLogs window.first window.last).1 = _
    unfold ScriptedChain.filterLogs
    rw [hnone]
    rfl
  unfold fetchLogs
  rw [callChain_of_unplanned hchain hplan, hanswer]
  exact ⟨_, _, rfl⟩

theorem Refuses.fetchLogs_succ (h : w.Refuses (n + 1)) (window : ScanWindow) (interval : Duration) (begins : Bool) :
    ∃ due v,
    w.fetchLogs window interval begins = (.wait (.retry due interval) begins, v) ∧ v.now ≤ due ∧ v.Refuses n ∧
      v.homes = w.homes := by
  obtain ⟨c, hchain, hplan, hmore⟩ := h
  have hanswer : ScriptedChain.answer (.filterLogs window.first window.last) c = (.error (.rpc "filter failed"),
      { c with filtered := c.filtered ++ [(window.first, window.last)], filterFailures := n }) := by
    show c.filterLogs window.first window.last = _
    unfold ScriptedChain.filterLogs
    rw [hmore]
    rfl
  unfold fetchLogs
  rw [callChain_of_unplanned hchain hplan, hanswer]
  exact ⟨_, _, rfl, Nat.le_add_right _ _, ⟨_, rfl, hplan, rfl⟩, rfl⟩

theorem tryLogs_of_going (hgo : ¬w.isCancelled home) :
    w.tryLogs home window interval begins = w.fetchLogs window interval begins := by
  unfold tryLogs
  split
  · rename_i hfetch
    rw [hfetch, if_neg hgo]
  · rfl

theorem pollLogs_first (window : ScanWindow) (initial limit : Duration) (hgo : ¬w.isCancelled home) :
    w.pollLogs home window initial limit none = w.fetchLogs window initial true := by
  unfold pollLogs
  rw [eq_false_of_ne_true hgo]
  exact tryLogs_of_going hgo

theorem pollLogs_again {due : Nat} (hgo : ¬w.isCancelled home) (hdue : due ≤ w.now) :
    w.pollLogs home window initial limit (some (.retry due interval)) =
      w.fetchLogs window (Backoff.following limit interval) false := by
  unfold pollLogs
  dsimp only
  rw [eq_false_of_ne_true hgo, decide_eq_true hdue]
  exact tryLogs_of_going hgo

end World

abbrev Passing (O : World → World → Prop) : Prop :=
  ∀ (w : World) (time : Nat), w.now ≤ time → O w { w with now := time }

/-- Trying never ends before the logs have come, however often it fails. -/
theorem exists_trying (hO : Passing O) (hw : w.Refuses n) (hgo : ¬w.isCancelled home)
    (hfetch : ∃ interval begins,
      w.pollLogs home window initial limit before = w.fetchLogs window interval begins) :
    ∃ looks logs v,
      Awaits O home (.logs window initial limit) before w looks (some logs) v ∧ failures looks = n := by
  obtain ⟨interval, begins, hfetch⟩ := hfetch
  induction n generalizing w before interval begins with
  | zero =>
    obtain ⟨logs, v, hreply⟩ := hw.fetchLogs_zero window interval begins
    have hpoll : w.poll home (.logs window initial limit) before = (.answer (some logs), v) := hfetch.trans hreply
    obtain ⟨found, -, hfound⟩ := World.found?_of_answer hreply
    exact ⟨_, logs, v, .answered hpoll, failures_of_found (World.fetches_of_eq hreply) hfound⟩
  | succ n ih =>
    obtain ⟨due, w', hreply, hdue, hw', hhomes⟩ := hw.fetchLogs_succ window interval begins
    have hpoll : w.poll home (.logs window initial limit) before = (.wait (.retry due interval) begins, w') :=
      hfetch.trans hreply
    let later : World := { w' with now := due }
    have hgo' : ¬later.isCancelled home := by
      unfold World.isCancelled
      rw [show later.homes = w.homes from hhomes]
      exact hgo
    have hlater : later.Refuses n := hw'
    obtain ⟨looks, logs, v, htrying, hfailures⟩ :=
      ih hlater hgo' _ _ (World.pollLogs_again hgo' (Nat.le_refl due))
    refine ⟨_, logs, v, .waited hpoll (hO w' due hdue) htrying, ?_⟩
    have hfailed : failures [⟨.logs window initial limit, w, w'⟩] = 1 :=
      failures_of_failed (World.fetches_of_eq hreply) (World.found?_eq_none hreply nofun)
    rw [← List.singleton_append, failures_append, hfailed, hfailures, Nat.add_comm]

end CommitReveal.Simulation
