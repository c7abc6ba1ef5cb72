import CommitReveal.Proofs.HandlerCalls
import CommitReveal.Proofs.Handling
import CommitReveal.Proofs.Windows

/-! One step of a scan, seen through what it asks: a window chosen by the head just read, its logs, the
dispatch of all of them, and only then the new place of the scan. -/
namespace CommitReveal.Agent

open Program
open Repository (key cursorKey)

variable {s : Settings} {e e' : EventSync} {w : ScanWindow} {logs : List EventLog}
  {p p' : Progress} {t u : Transcript interface}

def headRead? : Exchange interface → Option Word
  | ⟨.chain .blockNumber, .ok head⟩ => some head
  | _ => none

def headsRead (t : Transcript interface) : List Word :=
  t.filterMap headRead?

def fetched? : Exchange interface → Option (ScanWindow × List EventLog)
  | ⟨.logs w _ _, some logs⟩ => some (w, logs)
  | _ => none

/-- The windows whose logs have come, and the logs. -/
def fetched (t : Transcript interface) : List (ScanWindow × List EventLog) :=
  t.filterMap fetched?

/-- The logs of a window were fetched, and then every handler was called for every event among them that
concerns the agent, each call to its end, in the order of the chain. -/
def Dispatched (s : Settings) (handlers : List Handler) (w : ScanWindow) (logs : List EventLog)
    (t : Transcript interface) : Prop :=
  ∃ before initial limit ordered during after,
    t = before ++ ⟨.logs w initial limit, some logs⟩ :: (during ++ after) ∧ ChainOrdered logs ordered ∧
    Called w.mode (calls handlers (ordered.filterMap (heard? s.agent))) during

theorem Dispatched.within {handlers : List Handler} (h : Dispatched s handlers w logs t)
    (before after : Transcript interface) : Dispatched s handlers w logs (before ++ t ++ after) := by
  obtain ⟨first, initial, limit, ordered, during, last, rfl, hordered, hcalled⟩ := h
  exact ⟨before ++ first, initial, limit, ordered, during, last ++ after, by simp, hordered, hcalled⟩

theorem Dispatched.mem_fetched {handlers : List Handler} (h : Dispatched s handlers w logs t) :
    (w, logs) ∈ fetched t := by
  obtain ⟨before, initial, limit, ordered, during, after, rfl, -⟩ := h
  exact List.mem_filterMap.2 ⟨⟨.logs w initial limit, some logs⟩, by simp, rfl⟩

/-- The window was chosen by the head, which is all that was read. -/
def Chosen (e : EventSync) (w : ScanWindow) (t : Transcript interface) : Prop :=
  ∃ head, t = [⟨.chain .blockNumber, .ok head⟩] ∧
    ScanWindow.select (Word.saturatingSub head e.confirmations) e.cursor = .ok (some w)

def Request.isAside : Request → Bool
  | .chain _ | .logs .. => false
  | _ => true

/-- The window was chosen and its logs were dispatched, which led to `p`. -/
def Scanned (s : Settings) (e : EventSync) (w : ScanWindow) (logs : List EventLog) (p : Progress)
    (t : Transcript interface) : Prop :=
  ∃ initial limit chosen during after, Chosen e w chosen ∧
    t = chosen ++ ⟨.logs w initial limit, some logs⟩ :: (during ++ after) ∧
    (dispatchAll s.agent e.handlers w.mode e.progress (inChainOrder logs)).Reaches during (.done p) ∧
    ∀ x ∈ during ++ after, x.request.isAside

/-- Where a step cannot go on: the next window, the place behind it or the gap before it lies beyond
the last block number. -/
def Stuck (s : Settings) (e : EventSync) (t : Transcript interface) : Prop :=
  (∃ head f, t = [⟨.chain .blockNumber, .ok head⟩] ∧
    ScanWindow.select (Word.saturatingSub head e.confirmations) e.cursor = .error f) ∨
  ∃ w logs p, Scanned s e w logs p t ∧ (Word.add? w.last 1 = none ∨ ∃ f, p.recordWindow w = .error f)

/-- What a step may ask after a transcript. Of the store it changes only what belongs to a hash, and,
once a window is dispatched, the place of the scan. -/
def Meets (s : Settings) (e : EventSync) : Request → Transcript interface → Prop
  | .logs w _ _, t => Chosen e w t
  | .abort _, t => Stuck s e t
  | .store (.call (.set k value)), t => (∃ field hash, k = key field hash) ∨
      k = cursorKey ∧ ∃ w logs p cursor, Scanned s e w logs p t ∧
        Word.add? w.last 1 = some cursor ∧ value = Bytes.ofNatBE 8 cursor.toNat
  | .store (.call (.delete k)), _ => ∃ field hash, k = key field hash
  | _, _ => True

/-- What a step has come to: nothing was fetched and nothing has changed, or a window was dispatched
and the scan stands behind it. -/
def Finished (s : Settings) (e : EventSync) (result : StepOutcome × EventSync)
    (t : Transcript interface) : Prop :=
  (result.2 = e ∧ fetched t = []) ∨
  ∃ w logs p cursor recorded, Scanned s e w logs p t ∧ Word.add? w.last 1 = some cursor ∧
    p.recordWindow w = .ok recorded ∧
    result.2 = { e with cursor, progress := (recorded.1.log false).1 }

theorem Request.Handling.aside {r : Request} (hr : r.Handling) : r.isAside := by
  cases r with
  | chain c => exact hr.elim
  | logs window initial limit => exact hr.elim
  | _ => rfl

theorem Request.Handling.meets {r : Request} (hr : r.Handling) : Meets s e r t := by
  cases r with
  | chain c => exact hr.elim
  | abort f => exact hr.elim
  | logs window initial limit => exact hr.elim
  | store q =>
    cases q with
    | clock => trivial
    | call c =>
      cases c with
      | get k => trivial
      | scan start => trivial
      | set k value => exact .inl hr
      | delete k => exact hr
  | _ => trivial

def Aside (t u : Transcript interface) : Prop :=
  ∃ v, u = t ++ v ∧ ∀ x ∈ v, x.request.isAside

theorem Aside.refl (t : Transcript interface) : Aside t t :=
  ⟨[], (List.append_nil t).symm, fun _ hx => nomatch hx⟩

theorem Aside.trans {v : Transcript interface} (h : Aside t u) (h' : Aside u v) : Aside t v := by
  obtain ⟨x, rfl, hx⟩ := h
  obtain ⟨y, rfl, hy⟩ := h'
  refine ⟨x ++ y, List.append_assoc t x y, fun z hz => ?_⟩
  rcases List.mem_append.1 hz with hz | hz
  · exact hx z hz
  · exact hy z hz

theorem fetched_of_aside (ht : ∀ x ∈ t, x.request.isAside) : fetched t = [] := by
  refine List.filterMap_eq_nil_iff.2 fun x hx => ?_
  obtain ⟨r, a⟩ := x
  have haside := ht _ hx
  cases r with
  | logs window initial limit => cases haside
  | _ => rfl

theorem headsRead_of_aside (ht : ∀ x ∈ t, x.request.isAside) : headsRead t = [] := by
  refine List.filterMap_eq_nil_iff.2 fun x hx => ?_
  obtain ⟨r, a⟩ := x
  have haside := ht _ hx
  cases r with
  | chain c => cases haside
  | _ => rfl

theorem Aside.fetched_eq (h : Aside t u) : fetched u = fetched t := by
  obtain ⟨v, rfl, hv⟩ := h
  unfold fetched
  rw [List.filterMap_append, show v.filterMap fetched? = [] from fetched_of_aside hv, List.append_nil]

theorem Scanned.aside (h : Scanned s e w logs p t) (hu : Aside t u) : Scanned s e w logs p u := by
  obtain ⟨initial, limit, chosen, during, after, hchosen, rfl, hreach, haside⟩ := h
  obtain ⟨v, rfl, hv⟩ := hu
  refine ⟨initial, limit, chosen, during, after ++ v, hchosen, by simp, hreach, fun x hx => ?_⟩
  rw [← List.append_assoc] at hx
  rcases List.mem_append.1 hx with hx | hx
  · exact haside x hx
  · exact hv x hx

theorem Scanned.fetched_eq (h : Scanned s e w logs p t) : fetched t = [(w, logs)] := by
  obtain ⟨initial, limit, _, during, after, ⟨head, rfl, -⟩, rfl, -, haside⟩ := h
  show (w, logs) :: fetched (during ++ after) = _
  rw [fetched_of_aside haside]

theorem Scanned.headsRead_eq (h : Scanned s e w logs p t) : ∃ head, headsRead t = [head] ∧
    ScanWindow.select (Word.saturatingSub head e.confirmations) e.cursor = .ok (some w) := by
  obtain ⟨initial, limit, _, during, after, ⟨head, rfl, hselect⟩, rfl, -, haside⟩ := h
  refine ⟨head, ?_, hselect⟩
  show head :: headsRead (during ++ after) = _
  rw [headsRead_of_aside haside]

theorem Scanned.follows (h : Scanned s e w logs p t) :
    w.first = e.cursor ∧ e.cursor.toNat < w.last.toNat := by
  obtain ⟨head, -, hselect⟩ := h.headsRead_eq
  obtain ⟨hfirst, hlt, -⟩ := ScanWindow.of_select hselect
  exact ⟨hfirst, hlt⟩

theorem Scanned.dispatched (h : Scanned s e w logs p t) : Dispatched s e.handlers w logs t := by
  obtain ⟨initial, limit, chosen, during, after, -, ht, hreach, -⟩ := h
  exact ⟨chosen, initial, limit, _, during, after, ht, chainOrdered_inChainOrder logs, called_dispatchAll hreach⟩

theorem upholds_aside {r : Request} (hr : r.isAside) (hmeets : Meets s e r t) :
    (ask r).Upholds (watched (Meets s e)) (fun _ u => Aside t u) t := by
  refine (upholds_noted hmeets).imp fun a u hu => ⟨[⟨r, a⟩], hu, fun x hx => ?_⟩
  rw [List.mem_singleton.1 hx]
  exact hr

theorem upholds_notifyAll_aside (ns : List Notice) :
    (notifyAll ns).Upholds (watched (Meets s e)) (fun _ u => Aside t u) t := by
  induction ns generalizing t with
  | nil => exact Aside.refl t
  | cons n rest ih =>
    refine Upholds.bind (upholds_aside (r := .notify n) rfl trivial) fun _ u hu => ?_
    exact ih.imp fun _ v hv => hu.trans hv

theorem upholds_idle_aside : (idle s).Upholds (watched (Meets s e)) (fun _ u => Aside t u) t := by
  unfold idle
  refine Upholds.bind (upholds_aside rfl trivial) fun now u hu => ?_
  refine Upholds.bind (upholds_aside rfl trivial) fun wake v hv => ?_
  cases wake with
  | due => exact hu.trans hv
  | cancelled => exact hu.trans hv

theorem upholds_orAbort_meets {α : Type} {x : Except Fault α}
    (hstuck : ∀ f, x = .error f → Stuck s e t) :
    (orAbort x).Upholds (watched (Meets s e)) (fun a u => x = .ok a ∧ u = t) t := by
  cases x with
  | ok a => exact ⟨rfl, rfl⟩
  | error f => exact upholds_watched.2 ⟨hstuck f rfl, fun never => nomatch never⟩

theorem upholds_scanWindow_meets {initial limit : Duration} (hchosen : Chosen e w t) :
    (scanWindow s e w logs).Upholds (watched (Meets s e)) (fun e' u => ∃ p cursor recorded,
      Scanned s e w logs p u ∧ Word.add? w.last 1 = some cursor ∧ p.recordWindow w = .ok recorded ∧
      e' = { e with cursor, progress := (recorded.1.log false).1 })
      (t ++ [⟨.logs w initial limit, some logs⟩]) := by
  unfold scanWindow
  have hdispatch : (dispatchAll s.agent e.handlers w.mode e.progress (inChainOrder logs)).Upholds
      (watched (Meets s e)) (fun p u => Scanned s e w logs p u)
      (t ++ [⟨.logs w initial limit, some logs⟩]) := by
    refine ((handling_dispatchAll ..).upholds fun _ _ hr => hr.meets).imp fun p u hu => ?_
    obtain ⟨v, rfl, hreach, hv⟩ := hu
    exact ⟨initial, limit, t, v, [], hchosen, by simp, hreach, fun x hx => (hv x (by simpa using hx)).aside⟩
  refine hdispatch.bind fun p u hscanned => ?_
  cases hadd : Word.add? w.last 1 with
  | none =>
    exact upholds_watched.2 ⟨.inr ⟨w, logs, p, hscanned, .inl hadd⟩, fun never => nomatch never⟩
  | some cursor =>
    have hpersist : (persistCursor cursor w logs).Upholds (watched (Meets s e))
        (fun _ v => Scanned s e w logs p v) u := by
      have hset : Meets s e (.store (.call (.set cursorKey (Bytes.ofNatBE 8 cursor.toNat)))) u :=
        .inr ⟨rfl, w, logs, p, cursor, hscanned, hadd, rfl⟩
      refine (upholds_aside rfl hset).bind fun answer v hv => ?_
      have note (n : Notice) : (notify n).Upholds (watched (Meets s e))
          (fun _ x => Scanned s e w logs p x) v :=
        (upholds_aside (r := .notify n) rfl trivial).imp fun _ _ hx => hscanned.aside (hv.trans hx)
      cases answer with
      | error cause => exact note _
      | ok _ =>
        show Upholds _ (if _ then _ else _) _ _
        split
        · exact note _
        · exact hscanned.aside hv
    refine hpersist.bind fun _ u hscanned => ?_
    have hstuck (f : Fault) (hrecord : p.recordWindow w = .error f) : Stuck s e u :=
      .inr ⟨w, logs, p, hscanned, .inr ⟨f, hrecord⟩⟩
    refine (upholds_orAbort_meets hstuck).bind fun recorded v hv => ?_
    obtain ⟨hrecord, rfl⟩ := hv
    refine (upholds_notifyAll_aside recorded.2).bind fun _ v hv => ?_
    refine (upholds_notifyAll_aside _).bind fun _ x hx => ?_
    exact ⟨p, cursor, recorded, hscanned.aside (hv.trans hx), rfl, hrecord, rfl⟩

/-- Every step of a scan keeps to the order: head, window, logs, dispatch, place. -/
theorem scanStep_meets (s : Settings) (e : EventSync) :
    (scanStep s e).Upholds (watched (Meets s e)) (Finished s e) [] := by
  unfold scanStep callChain
  have rest {t : Transcript interface} (ht : fetched t = []) :
      Upholds (watched (Meets s e)) (do return (← idle s, e) : Activity (StepOutcome × EventSync))
        (Finished s e) t := by
    refine upholds_idle_aside.bind fun outcome u hu => ?_
    exact .inl ⟨rfl, hu.fetched_eq.trans ht⟩
  refine Upholds.bind (upholds_noted trivial) fun answer t ht => ?_
  subst ht
  cases answer with
  | error cause =>
    refine Upholds.bind (upholds_aside (r := .notify (.headUnreadable cause)) rfl trivial) fun _ u hu => ?_
    exact rest (hu.fetched_eq.trans rfl)
  | ok head =>
    have hstuck (f : Fault) (hselect : ScanWindow.select
        (Word.saturatingSub head e.confirmations) e.cursor = .error f) :
        Stuck s e [⟨.chain .blockNumber, .ok head⟩] := .inl ⟨head, f, rfl, hselect⟩
    refine (upholds_orAbort_meets hstuck).bind fun window t ht => ?_
    obtain ⟨hselect, rfl⟩ := ht
    cases window with
    | none => exact rest rfl
    | some w =>
      have hchosen : Chosen e w [⟨.chain .blockNumber, .ok head⟩] := ⟨head, rfl, hselect⟩
      refine Upholds.bind (upholds_noted hchosen) fun logs t ht => ?_
      subst ht
      cases logs with
      | none => exact .inl ⟨rfl, rfl⟩
      | some logs =>
        refine (upholds_scanWindow_meets hchosen).bind fun e' t ht => ?_
        obtain ⟨p, cursor, recorded, hscanned, hadd, hrecord, rfl⟩ := ht
        exact .inr ⟨w, logs, p, cursor, recorded, hscanned, hadd, hrecord, rfl⟩

end CommitReveal.Agent
