import CommitReveal.Proofs.Asking
import CommitReveal.Proofs.Fetching

/-! A step of a scan is all or nothing. Either a window is fetched until its logs come, and the scan moves behind it,
or nothing is changed at all. -/
namespace CommitReveal.Simulation

open Agent (Request Settings scanStep scanWindow idle)
open Program

variable {O : World → World → Prop} {home n : Nat} {w v : World} {before : Option Wait} {looks : List Look}
  {window : ScanWindow} {s : Settings} {e e' : EventSync} {outcome : StepOutcome} {r : Request} {h : Hash}

/-- The window for which the head that the chain tells of lets a scan go on. -/
def World.choice? (w : World) (e : EventSync) : Option ScanWindow :=
  match (w.callChain .blockNumber).1 with
  | .ok (.ok head) => (ScanWindow.select (Word.saturatingSub head e.confirmations) e.cursor).toOption.join
  | _ => none

theorem World.choice?_of_select {head : Word} {selected : Option ScanWindow}
    (hcall : (w.callChain .blockNumber).1 = .ok (.ok head))
    (hselect : ScanWindow.select (Word.saturatingSub head e.confirmations) e.cursor = .ok selected) :
    w.choice? e = selected := by
  unfold choice?
  rw [hcall]
  dsimp only
  rw [hselect]
  rfl

theorem World.select_of_choice? (h : w.choice? e = some window) : ∃ head,
    (w.callChain .blockNumber).1 = .ok (.ok head) ∧
      ScanWindow.select (Word.saturatingSub head e.confirmations) e.cursor = .ok (some window) := by
  unfold choice? at h
  split at h
  · rename_i head hcall
    obtain ⟨selected, hselect, -⟩ := ScanWindow.select_spec (Word.saturatingSub head e.confirmations) e.cursor
    rw [hselect] at h
    exact ⟨head, hcall, hselect.trans (congrArg Except.ok h)⟩
  · cases h

theorem poll_chain {c : Chain.Call} {reply : World.Reply (Except ChainError c.Result)}
    (h : w.poll home (.chain c) before = (reply, v)) :
    (∃ f, reply = .fault f) ∨ ∃ answer, reply = .answer answer ∧ w.callChain c = (.ok answer, v) := by
  dsimp only [World.poll] at h
  split at h
  · cases h
    exact .inr ⟨_, rfl, by assumption⟩
  · cases h
    exact .inl ⟨_, rfl⟩

theorem awaits_chain {c : Chain.Call} {answer : Except ChainError c.Result}
    (h : Awaits O home (.chain c) none w looks answer v) :
    looks = [⟨.chain c, w, v⟩] ∧ w.callChain c = (.ok answer, v) := by
  obtain ⟨hlooks, hreply⟩ := h.at_once fun wait anew v hwait => by
    obtain ⟨f, hreply⟩ | ⟨answer, hreply, -⟩ := poll_chain hwait <;> cases hreply
  refine ⟨hlooks, ?_⟩
  obtain ⟨f, hfault⟩ | ⟨answer', hanswer, hcall⟩ := poll_chain hreply
  · cases hfault
  · cases hanswer
    exact hcall

theorem cancelled_of_pause {time : Nat} (h : Awaits O home (.pauseUntil time) before w looks .cancelled v) :
    v.isCancelled home := by
  obtain ⟨waits, last, w', rfl, -, hlast⟩ := h.last
  obtain ⟨hcancelled, flips, rfl⟩ := World.pollPause_cancelled hlast
  exact hcancelled

section Steps

variable {α : Type} {p : Agent.Activity α} {a : α}

def Untraced (home : Nat) (r : Request) : Prop :=
  ∀ before (w : World), (w.poll home r before).2.calls = w.calls

def Quiet (home : Nat) (r : Request) : Prop :=
  Untraced home r ∧ ∀ before (w : World), w.Untouched (w.poll home r before).2

theorem quiet_of_same (hr : ∀ before (w : World), (w.poll home r before).2 = w) : Quiet home r := by
  refine ⟨fun before w => congrArg World.calls (hr before w), fun before w => ?_⟩
  rw [hr]
  exact .refl w

theorem quiet_notify (n : Notice) : Quiet home (.notify n) :=
  ⟨fun _ _ => rfl, fun _ _ => ⟨_, _, _, _, rfl⟩⟩

theorem quiet_blockNumber : Quiet home (.chain .blockNumber) := by
  have hpoll (before) (w : World) :
      (w.poll home (.chain .blockNumber) before).2 = (w.callChain .blockNumber).2 := by
    dsimp only [World.poll]
    split <;> simp only [*]
  refine ⟨fun before w => ?_, fun before w => ?_⟩
  · rw [hpoll]
    rfl
  · rw [hpoll]
    exact ⟨_, _, _, _, rfl⟩

theorem quiet_pauseUntil (time : Nat) : Quiet home (.pauseUntil time) := by
  have hpoll (before) (w : World) : ∃ flips, (w.poll home (.pauseUntil time) before).2 = { w with flips } :=
    w.exists_flips_of_pollPause home time
  refine ⟨fun before w => ?_, fun before w => ?_⟩
  all_goals
    obtain ⟨flips, hsame⟩ := hpoll before w
    rw [hsame]
  exact ⟨_, _, _, flips, rfl⟩

theorem quiet_idle : (idle s).Only (Quiet home) := by
  refine ⟨quiet_of_same fun _ _ => rfl, fun now => ⟨quiet_pauseUntil _, fun wake => ?_⟩⟩
  cases wake <;> trivial

theorem Course.calls_eq_nil (hp : p.Only (Untraced home)) (h : Course O home p w looks a v) :
    ∀ look ∈ looks, look.calls = [] :=
  h.forall_looks hp fun _ _ _ hr => Look.calls_eq_nil (hr _ _)

theorem Awaits.quiet {b : r.Answer} (hr : Quiet home r) (h : Awaits O home r before w looks b v) :
    ∀ look ∈ looks, look.Quiet :=
  h.forall_looks fun _ _ => ⟨Look.calls_eq_nil (hr.1 _ _), hr.2 _ _⟩

theorem Course.quiet (hp : p.Only (Quiet home)) (h : Course O home p w looks a v) : ∀ look ∈ looks, look.Quiet :=
  h.forall_looks hp fun _ _ _ hr => ⟨Look.calls_eq_nil (hr.1 _ _), hr.2 _ _⟩

theorem untraced_of_touching (hr : r.Touching h) : Untraced home r := by
  intro before w
  cases hr with
  | @keeps r seed keeping => cases r <;> rfl
  | schedules =>
    show (w.spawn home _).2.calls = w.calls
    unfold World.spawn
    split <;> rfl
  | _ => rfl

theorem untraced_deliver (name : String) (event : OracleEvent) (mode : ScanMode) :
    Untraced home (.deliver name event mode) := by
  intro before w
  show (w.deliver name event mode).2.calls = w.calls
  unfold World.deliver
  split <;> rfl

theorem untraced_scanWindow {logs : List EventLog} : (scanWindow s e window logs).Only (Untraced home) :=
  Only.bind (Agent.only_dispatchAll (fun _ _ => untraced_of_touching) untraced_deliver ..) fun progress =>
    Agent.only_moveBehind (fun n => (quiet_notify n).1)
      (fun _ _ _ => rfl) (fun _ _ _ => rfl) e window logs progress

theorem cursor_of_scanWindow {logs : List EventLog} {w' : World} (hchosen : w.choice? e = some window)
    (h : Course O home (scanWindow s e window logs) w' looks e' v) :
    Word.add? window.last 1 = some e'.cursor := by
  obtain ⟨head, -, hselect⟩ := World.select_of_choice? hchosen
  obtain ⟨t, hreach⟩ := h.reaches
  have hchosen : Agent.Chosen e window [⟨.chain .blockNumber, .ok head⟩] := ⟨head, rfl, hselect⟩
  have hupholds : (scanWindow s e window logs).Upholds (watched (Agent.Meets s e)) _
      (_ ++ [⟨.logs window (.ofMillis 0) (.ofMillis 0), some logs⟩]) := Agent.upholds_scanWindow_meets hchosen
  obtain ⟨p, cursor, recorded, -, hadd, -, rfl⟩ := hupholds.reached hreach
  exact hadd

/-- How a step goes, from its looks to its outcome. -/
inductive Stepped (O : World → World → Prop) (home : Nat) (s : Settings) (e : EventSync) (w : World) :
    List Look → StepOutcome → EventSync → World → Prop
  | rests {looks : List Look} {outcome : StepOutcome} {v : World} (unchosen : w.choice? e = none)
    (quiet : ∀ look ∈ looks, look.Quiet) (ends : outcome = .idle ∨ outcome = .cancelled ∧ v.isCancelled home) :
    Stepped O home s e w looks outcome e v
  | stops {first tries : List Look} {window : ScanWindow} {initial limit : Duration} {w' v : World}
    (chosen : w.choice? e = some window) (quiet : ∀ look ∈ first, look.Quiet)
    (trying : Awaits O home (.logs window initial limit) .none w' tries .none v) :
    Stepped O home s e w (first ++ tries) .cancelled e v
  | scans {first tries during : List Look} {window : ScanWindow} {initial limit : Duration} {logs : List EventLog}
    {e' : EventSync} {w' w'' v : World} (chosen : w.choice? e = some window) (quiet : ∀ look ∈ first, look.Quiet)
    (trying : Awaits O home (.logs window initial limit) .none w' tries (some logs) w'')
    (moving : Course O home (scanWindow s e window logs) w'' during e' v) :
    Stepped O home s e w (first ++ tries ++ during) (.scanned window logs.length) e' v

theorem stepped_of_rest {first : List Look} {w' : World} (hnone : w.choice? e = none)
    (hfirst : ∀ look ∈ first, look.Quiet)
    (h : Course O home (do return (← idle s, e)) w' looks (outcome, e') v) :
    Stepped O home s e w (first ++ looks) outcome e' v := by
  have hrest : (do return (← idle s, e) : Agent.Activity (StepOutcome × EventSync)).Only (Quiet home) :=
    quiet_idle.bind fun _ => trivial
  have hquiet := h.quiet hrest
  obtain ⟨during, later, outcome', v', rfl, hidle, hdone⟩ := Course.of_bind h
  obtain ⟨rfl, hresult, rfl⟩ := course_done.1 hdone
  cases hresult
  refine .rests hnone (List.forall_mem_append.2 ⟨hfirst, hquiet⟩) ?_
  obtain ⟨_, _, now, w₁, -, -, hpause⟩ := Course.of_ask hidle
  obtain ⟨_, _, wake, w₂, -, hawaits, hwake⟩ := Course.of_ask hpause
  cases wake with
  | due => exact .inl (course_done.1 hwake).2.1
  | cancelled =>
    obtain ⟨-, rfl, rfl⟩ := course_done.1 hwake
    exact .inr ⟨rfl, cancelled_of_pause hawaits⟩

theorem stepped_of_course (h : Course O home (scanStep s e) w looks (outcome, e') v) :
    Stepped O home s e w looks outcome e' v := by
  unfold scanStep Agent.callChain at h
  obtain ⟨first, later, answer, w₁, rfl, hhead, hrest⟩ := Course.of_ask h
  have hcall : (w.callChain .blockNumber).1 = .ok answer := congrArg Prod.fst (awaits_chain hhead).2
  have hfirst : ∀ look ∈ first, look.Quiet := hhead.quiet quiet_blockNumber
  cases answer with
  | error cause =>
    have hnone : w.choice? e = none := by
      unfold World.choice?
      rw [hcall]
    obtain ⟨noted, later, _, w₂, rfl, hnoted, hrest⟩ := Course.of_ask hrest
    have hquiet : ∀ look ∈ noted, look.Quiet := hnoted.quiet (quiet_notify _)
    rw [← List.append_assoc]
    exact stepped_of_rest hnone (List.forall_mem_append.2 ⟨hfirst, hquiet⟩) hrest
  | ok head =>
    obtain ⟨selected, hselect, -⟩ := ScanWindow.select_spec (Word.saturatingSub head e.confirmations) e.cursor
    dsimp only at hrest
    rw [hselect] at hrest
    cases selected with
    | none => exact stepped_of_rest (World.choice?_of_select hcall hselect) hfirst hrest
    | some window =>
      have hchosen := World.choice?_of_select hcall hselect
      obtain ⟨tries, later, logs, w₂, rfl, htrying, hrest⟩ := Course.of_ask hrest
      cases logs with
      | none =>
        obtain ⟨rfl, hresult, rfl⟩ := course_done.1 hrest
        cases hresult
        rw [List.append_nil]
        exact .stops hchosen hfirst htrying
      | some logs =>
        obtain ⟨during, last, e'', w₃, rfl, hmoving, hdone⟩ := Course.of_bind hrest
        obtain ⟨rfl, hresult, rfl⟩ := course_done.1 hdone
        cases hresult
        rw [List.append_nil, ← List.append_assoc]
        exact .scans hchosen hfirst htrying hmoving

/-- The looks have changed nothing, so that whatever the others keep holds of what it has come to. -/
structure Unmoved (O : World → World → Prop) (looks : List Look) (w v : World) : Prop where
  untouched : ∀ look ∈ looks, look.before.Untouched look.after
  kept {R : World → World → Prop} (trans : ∀ {u v w}, R u v → R v w → R u w) (hR : ∀ w v, w.Untouched v → R w v)
    (hO : ∀ w v, O w v → R w v) : R w v

theorem Course.unmoved (h : Course O home p w looks a v)
    (hlooks : ∀ look ∈ looks, look.before.Untouched look.after) : Unmoved O looks w v where
  untouched := hlooks
  kept trans hR hO := h.carried (fun w => hR w w (.refl w)) trans hO fun look hlook => hR _ _ (hlooks look hlook)

/-- What a step of a scan comes to. -/
def Comes (O : World → World → Prop) (home : Nat) (e : EventSync) (w : World) (looks : List Look) :
    StepOutcome → EventSync → World → Prop
  | .idle, e', v => e' = e ∧ Unmoved O looks w v ∧ traced looks = [] ∧ w.choice? e = none
  | .cancelled, e', v => e' = e ∧ Unmoved O looks w v ∧ v.isCancelled home
  | .scanned window _, e', _ => w.choice? e = some window ∧
      traced looks = List.replicate (failures looks + 1) (.filterLogs window.first window.last) ∧
      Word.add? window.last 1 = some e'.cursor

theorem comes_of_course (h : Course O home (scanStep s e) w looks (outcome, e') v) :
    (∀ call ∈ traced looks, ∃ window, w.choice? e = some window ∧ call = .filterLogs window.first window.last) ∧
      Comes O home e w looks outcome e' v := by
  cases stepped_of_course h with
  | rests unchosen quiet ends =>
    have htraced := traced_eq_nil fun look hlook => (quiet look hlook).1
    have hunmoved := h.unmoved fun look hlook => (quiet look hlook).2
    refine ⟨by rw [htraced]; exact List.forall_mem_nil _, ?_⟩
    obtain rfl | ⟨rfl, hcancelled⟩ := ends
    · exact ⟨rfl, hunmoved, htraced, unchosen⟩
    · exact ⟨rfl, hunmoved, hcancelled⟩
  | stops chosen quiet trying =>
    obtain ⟨htraced, hcancelled⟩ := traced_of_awaits trying
    have hunmoved := h.unmoved (List.forall_mem_append.2
      ⟨fun look hlook => (quiet look hlook).2, trying.forall_looks fun _ _ => untouched_pollLogs⟩)
    refine ⟨fun call hmem => ⟨_, chosen, ?_⟩, rfl, hunmoved, hcancelled rfl⟩
    rw [traced_append, traced_eq_nil fun look hlook => (quiet look hlook).1, htraced] at hmem
    exact (List.mem_replicate.1 hmem).2
  | @scans first tries during window initial limit logs _ w' w'' _ chosen quiet trying moving =>
    have hfirst : ∀ look ∈ first, look.calls = [] := fun look hlook => (quiet look hlook).1
    have hduring := moving.calls_eq_nil untraced_scanWindow
    have htraced : traced (first ++ tries ++ during) = List.replicate
        (failures (first ++ tries ++ during) + 1) (.filterLogs window.first window.last) := by
      rw [traced_append, traced_append, traced_eq_nil hfirst, traced_eq_nil hduring, (traced_of_awaits trying).1,
        failures_append, failures_append, failures_eq_zero hfirst, failures_eq_zero hduring]
      simp
    refine ⟨fun call hmem => ⟨_, chosen, ?_⟩, chosen, htraced, cursor_of_scanWindow chosen moving⟩
    rw [htraced] at hmem
    exact (List.mem_replicate.1 hmem).2

end Steps

section Endless

variable {p : Progress}

theorem answered_of_touching (hr : r.Touching h) : Answered home r := by
  intro w
  cases hr with
  | @keeps r seed keeping => exact ⟨_, _, rfl⟩
  | _ => exact ⟨_, _, rfl⟩

theorem exists_recordWindow (window : ScanWindow)
    (hlast : ∀ last, p.lastEnd = some last → (Word.add? last 1).isSome) :
    ∃ recorded, p.recordWindow window = .ok recorded := by
  have hgap : ∃ gap, p.gapBefore window = .ok gap := by
    unfold Progress.gapBefore
    cases hend : p.lastEnd with
    | none => exact ⟨_, rfl⟩
    | some last =>
      obtain ⟨expected, hadd⟩ := Option.isSome_iff_exists.1 (hlast last hend)
      dsimp only
      rw [hadd]
      exact ⟨_, rfl⟩
  obtain ⟨gap, hgap⟩ := hgap
  unfold Progress.recordWindow
  rw [hgap]
  exact ⟨_, rfl⟩

theorem exists_moving (hroom : (Word.add? window.last 1).isSome)
    (hlast : ∀ last, e.progress.lastEnd = some last → (Word.add? last 1).isSome)
    (logs : List EventLog) (w : World) :
    ∃ looks e' v, Course O home (scanWindow s e window logs) w looks e' v := by
  obtain ⟨cursor, hadd⟩ := Option.isSome_iff_exists.1 hroom
  have hnotify (n : Notice) : Answered home (.notify n) := fun w => ⟨_, _, rfl⟩
  obtain ⟨_, p, w₁, hdispatch⟩ := exists_course (O := O) (Agent.only_dispatchAll (K := Answered home)
    (fun _ _ => answered_of_touching) (fun _ _ _ _ => ⟨_, _, rfl⟩)
    s.agent e.handlers window.mode e.progress (Agent.inChainOrder logs)) w
  obtain ⟨_, _, w₂, hpersist⟩ := exists_course (O := O) (Agent.only_persistCursor (K := Answered home)
    hnotify (fun _ _ => ⟨_, _, rfl⟩) cursor window logs) w₁
  obtain ⟨t, hreach⟩ := hdispatch.reaches
  obtain ⟨recorded, hrecord⟩ := exists_recordWindow window ((Agent.onlyLogs_dispatchAll hreach).1.lastEnd ▸ hlast)
  obtain ⟨_, _, w₃, hgaps⟩ := exists_course (O := O) (Agent.only_notifyAll hnotify recorded.2) w₂
  obtain ⟨_, _, w₄, hlines⟩ := exists_course (O := O) (Agent.only_notifyAll hnotify (recorded.1.log false).2) w₃
  unfold scanWindow
  refine hdispatch.exists_bind ?_
  rw [hadd]
  refine hpersist.exists_bind ?_
  rw [hrecord]
  exact hgaps.exists_bind (hlines.exists_bind ⟨_, _, _, .done _ _⟩)

/-- However often fetching is to fail, the step scans its window in the end. -/
theorem exists_course_scanStep (hO : Passing O) (hw : w.Refuses n) (hgo : ¬w.isCancelled home)
    (hchosen : w.choice? e = some window) (hroom : (Word.add? window.last 1).isSome)
    (hlast : ∀ last, e.progress.lastEnd = some last → (Word.add? last 1).isSome) :
    ∃ looks count e' v,
      Course O home (scanStep s e) w looks (.scanned window count, e') v ∧ failures looks = n := by
  obtain ⟨head, hcall, hselect⟩ := World.select_of_choice? hchosen
  obtain ⟨hw₁, hhomes⟩ := hw.blockNumber
  let w₁ := (w.callChain .blockNumber).2
  have hpoll : w.poll home (.chain .blockNumber) none = (.answer (.ok head), w₁) := by
    dsimp only [World.poll]
    rw [show w.callChain .blockNumber = (.ok (.ok head), w₁) from Prod.ext hcall rfl]
  obtain ⟨looks, hread⟩ : ∃ looks, Course O home (Agent.callChain .blockNumber) w looks (.ok head) w₁ :=
    ⟨_, .ask (.answered hpoll) (.done _ _)⟩
  have hgo₁ : ¬w₁.isCancelled home := by
    unfold World.isCancelled
    rw [hhomes]
    exact hgo
  obtain ⟨tries, logs, w₂, htrying, hfailures⟩ := exists_trying hO hw₁ hgo₁
    ⟨_, _, World.pollLogs_first window (.ofMillis s.timings.backoffInitial) (.ofMillis s.timings.backoffLimit) hgo₁⟩
  obtain ⟨during, e', v, hmoving⟩ : ∃ looks e' v, Course O home (scanWindow s e window logs) w₂ looks e' v :=
    exists_moving hroom hlast logs w₂
  have hstep :
      Course O home (scanStep s e) w (looks ++ (tries ++ (during ++ []))) (.scanned window logs.length, e') v := by
    refine hread.bind ?_
    dsimp only
    rw [hselect]
    exact .ask htrying (hmoving.bind (.done _ _))
  refine ⟨_, logs.length, e', v, hstep, ?_⟩
  rw [failures_append, failures_append, List.append_nil, hfailures,
    failures_eq_zero (hread.calls_eq_nil (p := Agent.callChain .blockNumber)
      ⟨quiet_blockNumber.1, fun _ => trivial⟩),
    failures_eq_zero (hmoving.calls_eq_nil untraced_scanWindow)]
  exact Nat.zero_add n

end Endless

/-- A step that ends idle or cancelled has changed nothing, and one that scans a window ends right behind
it, whatever failed on the way. -/
theorem scanStep_all_or_nothing (s : Settings) (e : EventSync) (home : Nat) (O : World → World → Prop) :
    (Schedules O → ∀ fuel w outcome e' v, finish home fuel (run home (scanStep s e) w) = (.done (outcome, e'), v) →
      ∃ looks, Course O home (scanStep s e) w looks (outcome, e') v) ∧
    (∀ w looks outcome e' v, Course O home (scanStep s e) w looks (outcome, e') v →
      (∀ call ∈ traced looks, ∃ window, w.choice? e = some window ∧ call = .filterLogs window.first window.last) ∧
      ((∀ w v, O w v → v.calls = w.calls) → v.calls = w.calls ++ traced looks) ∧
      Comes O home e w looks outcome e' v) ∧
    (Passing O → ∀ n w window, w.Refuses n → ¬w.isCancelled home → w.choice? e = some window →
      (Word.add? window.last 1).isSome →
      (∀ last, e.progress.lastEnd = some last → (Word.add? last 1).isSome) →
      ∃ looks count e' v,
        Course O home (scanStep s e) w looks (.scanned window count, e') v ∧ failures looks = n) := by
  refine ⟨fun hO fuel w outcome e' v hfinish => course_of_finish hO hfinish, ?_, ?_⟩
  · intro w looks outcome e' v hcourse
    obtain ⟨hsame, hcomes⟩ := comes_of_course hcourse
    exact ⟨hsame, fun hO => hcourse.calls_eq hO, hcomes⟩
  · intro hO n w window hw hgo hchosen hroom hlast
    exact exists_course_scanStep hO hw hgo hchosen hroom hlast

def troubled (s : Settings) : World :=
  { World.start (.scripted { ScriptedChain.start s.agent 25 with filterFailures := 2 }) (.memory .empty) s with
    store := ⟨.memory .empty, [⟨.set, 0, 1, .io⟩]⟩ }

theorem scanStep_all_or_nothing_troubled : ∃ (s : Settings) (e' : EventSync) (v : World) (looks : List Look),
    finish 0 3 (run 0 (scanStep s (.start 10 [.revealTrigger] 5)) (troubled s)) =
        (.done (.scanned ⟨10, 20, .live⟩ 0, e'), v) ∧
      Course Alone 0 (scanStep s (.start 10 [.revealTrigger] 5)) (troubled s) looks
        (.scanned ⟨10, 20, .live⟩ 0, e') v ∧
      traced looks = List.replicate (failures looks + 1) (.filterLogs 10 20) ∧
      v.calls = List.replicate 3 (.filterLogs 10 20) ∧ e'.cursor = 21 ∧
      (FallibleStore.perform (.get Repository.cursorKey) v.store).1.toOption = some none ∧
      ∃ looks count e' v, Course Alone 0 (scanStep s (.start 10 [.revealTrigger] 5)) (troubled s) looks
        (.scanned ⟨10, 20, .live⟩ count, e') v ∧ failures looks = 2 := by
  let s : Settings := ⟨.fill 20 1, .fill 20 2, .standard, .standard⟩
  let e' : EventSync := ⟨21, ⟨⟨10, 20, 0, 1, 0, 0, 0, 0, none⟩, some 20, 10⟩, [.revealTrigger], 5⟩
  let ended := finish 0 3 (run 0 (scanStep s (.start 10 [.revealTrigger] 5)) (troubled s))
  have hfinish : ended = (.done (.scanned ⟨10, 20, .live⟩ 0, e'), ended.2) := by
    refine Prod.ext (Stop.value?_eq_some_iff.1 ?_) rfl
    decide +kernel
  obtain ⟨hsound, hcomes, hendless⟩ := scanStep_all_or_nothing s (.start 10 [.revealTrigger] 5) 0 Alone
  obtain ⟨looks, hcourse⟩ := hsound schedules_alone 3 (troubled s) _ _ _ hfinish
  obtain ⟨-, -, hchosen, htraced, -⟩ := hcomes _ _ _ _ _ hcourse
  have hpassing : Passing Alone := fun w time _ _ => ⟨time, w.ready, w.stamp, w.foregroundWoken, w.flips, rfl⟩
  refine ⟨s, e', ended.2, looks, hfinish, hcourse, htraced, by decide +kernel, rfl, by decide +kernel, ?_⟩
  exact hendless hpassing 2 (troubled s) _ ⟨_, rfl, rfl, rfl⟩ (by decide +kernel) hchosen (by decide)
    fun _ hlast => nomatch hlast

end CommitReveal.Simulation
