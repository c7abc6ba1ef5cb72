import CommitReveal.Agent.Scan
import CommitReveal.Proofs.Transcript
import Mathlib.Data.List.Nodup
import Mathlib.Data.Prod.Lex
import Mathlib.Order.WithBot

/-! The order in which handlers are called. The logs of a window are put in the order of the chain, whatever
order the node gives them in, and every handler is called for every event that concerns the agent, whatever
has come of the calls before. -/
namespace CommitReveal.Agent

open Program

section Order

variable {logs logs' ordered : List EventLog}

/-- A list in ascending order is known by what it has of each key. -/
theorem eq_of_ascending {α κ : Type} [LinearOrder κ] {key : α → κ} {xs ys : List α}
    (hxs : xs.Pairwise fun a b => key a ≤ key b) (hys : ys.Pairwise fun a b => key a ≤ key b)
    (hsame : ∀ k, xs.filter (key · = k) = ys.filter (key · = k)) : xs = ys := by
  induction xs generalizing ys with
  | nil =>
    refine (List.eq_nil_iff_forall_not_mem.2 fun y hy => ?_).symm
    have hin : y ∈ ys.filter (key · = key y) := List.mem_filter.2 ⟨hy, decide_eq_true rfl⟩
    rw [← hsame] at hin
    cases hin
  | cons x xs ih =>
    have hmem {a : α} : a ∈ x :: xs ↔ a ∈ ys := by
      have hin : a ∈ (x :: xs).filter (key · = key a) ↔ a ∈ ys.filter (key · = key a) := by rw [hsame]
      simpa only [List.mem_filter, decide_true, and_true] using hin
    cases ys with
    | nil => exact nomatch hmem.1 List.mem_cons_self
    | cons y ys =>
      obtain ⟨hx, hxs⟩ := List.pairwise_cons.1 hxs
      obtain ⟨hy, hyss⟩ := List.pairwise_cons.1 hys
      -- both heads have the least key, and of the elements with that key each list has its head first
      have hle : key x ≤ key y := by
        rcases List.mem_cons.1 (hmem.2 List.mem_cons_self) with rfl | hin
        · exact le_rfl
        · exact hx y hin
      have hge : key y ≤ key x := by
        rcases List.mem_cons.1 (hmem.1 List.mem_cons_self) with rfl | hin
        · exact le_rfl
        · exact hy x hin
      have hkey : key y = key x := le_antisymm hge hle
      have hfirst {a : α} {l : List α} {k : κ} (ha : key a = k) :
          (a :: l).filter (key · = k) = a :: l.filter (key · = k) := List.filter_cons_of_pos (decide_eq_true ha)
      have hlater {a : α} {l : List α} {k : κ} (ha : ¬key a = k) :
          (a :: l).filter (key · = k) = l.filter (key · = k) := by
        rw [List.filter_cons_of_neg (by simpa using ha)]
      have hheads := hsame (key x)
      rw [hfirst rfl, hfirst hkey] at hheads
      obtain ⟨rfl, -⟩ := List.cons.inj hheads
      refine congrArg (x :: ·) (ih hxs hyss fun k => ?_)
      have hk := hsame k
      by_cases hx : key x = k
      · rw [hfirst hx, hfirst hx] at hk
        exact (List.cons.inj hk).2
      · rwa [hlater hx, hlater hx] at hk

def number (n : Option Nat) : WithBot ℕ :=
  n

/-- Where a log stands on the chain: the block, then the place in the block. -/
def place (log : EventLog) : WithBot ℕ ×ₗ WithBot ℕ :=
  toLex (number (log.block.map (·.toNat)), number log.index)

theorem numberLe_iff {a b : Option Nat} : numberLe a b ↔ number a ≤ number b := by
  rcases a with _ | a
  · exact iff_of_true rfl bot_le
  · rcases b with _ | b
    · exact iff_of_false Bool.false_ne_true (WithBot.not_coe_le_bot a)
    · exact decide_eq_true_iff.trans WithBot.coe_le_coe.symm

theorem logLe_iff {a b : EventLog} : logLe a b ↔ place a ≤ place b := by
  unfold place
  rw [Prod.Lex.toLex_le_toLex]
  show (if _ then numberLe _ _ else numberLe _ _) = true ↔ _
  dsimp only
  split
  · rename_i hblock
    rw [numberLe_iff, hblock, or_iff_right (lt_irrefl _), and_iff_right rfl]
  · rename_i hblock
    have hother : ¬number (a.block.map (·.toNat)) = number (b.block.map (·.toNat)) := hblock
    rw [numberLe_iff, le_iff_lt_or_eq, or_iff_left hother, or_iff_left fun h => hother h.1]

/-- Logs as the chain has them: every log as often as before, none behind one that stands further on, and
those that stand at one place as they were. -/
structure ChainOrdered (logs ordered : List EventLog) : Prop where
  perm : ordered.Perm logs
  ascending : ordered.Pairwise fun a b => place a ≤ place b
  stable : ∀ p, ordered.filter (place · = p) = logs.filter (place · = p)

theorem ChainOrdered.unique (h : ChainOrdered logs ordered) (h' : ChainOrdered logs logs') :
    ordered = logs' :=
  eq_of_ascending h.ascending h'.ascending fun p => (h.stable p).trans (h'.stable p).symm

theorem chainOrdered_inChainOrder (logs : List EventLog) : ChainOrdered logs (inChainOrder logs) := by
  have htrans (a b c : EventLog) (hab : logLe a b) (hbc : logLe b c) : logLe a c :=
    logLe_iff.2 ((logLe_iff.1 hab).trans (logLe_iff.1 hbc))
  have htotal (a b : EventLog) : (logLe a b || logLe b a) = true := by
    rw [Bool.or_eq_true, logLe_iff, logLe_iff]
    exact le_total _ _
  have hperm : (inChainOrder logs).Perm logs := List.mergeSort_perm logs logLe
  refine ⟨hperm, (List.pairwise_mergeSort htrans htotal logs).imp logLe_iff.1, fun p => ?_⟩
  have hequal : (logs.filter (place · = p)).Pairwise fun a b => logLe a b = true := by
    refine List.pairwise_of_forall_mem_list fun a ha b hb => logLe_iff.2 ?_
    rw [of_decide_eq_true (List.mem_filter.1 ha).2, of_decide_eq_true (List.mem_filter.1 hb).2]
  have hsub : (logs.filter (place · = p)).Sublist (inChainOrder logs) :=
    List.sublist_mergeSort htrans htotal hequal List.filter_sublist
  have hfiltered := hsub.filter (place · = p)
  simp only [List.filter_filter, Bool.and_self] at hfiltered
  exact (hfiltered.eq_of_length (hperm.filter _).length_eq.symm).symm

theorem inChainOrder_eq (h : ChainOrdered logs ordered) : inChainOrder logs = ordered :=
  (chainOrdered_inChainOrder logs).unique h

/-- If no two logs stand at one place, it does not matter how the node lists them. -/
theorem inChainOrder_perm (hperm : logs'.Perm logs) (hdistinct : (logs.map place).Nodup) :
    inChainOrder logs' = inChainOrder logs := by
  have hordered := chainOrdered_inChainOrder logs
  refine inChainOrder_eq ⟨hordered.perm.trans hperm.symm, hordered.ascending, fun p => ?_⟩
  rw [hordered.stable p]
  have hall (l : List EventLog) : l.Pairwise fun _ _ => True := List.pairwise_of_forall fun _ _ => trivial
  refine (hperm.symm.filter _).eq_of_pairwise (fun a b ha hb _ _ => ?_) (hall _) (hall _)
  obtain ⟨ha, hpa⟩ := List.mem_filter.1 ha
  obtain ⟨hb, hpb⟩ := List.mem_filter.1 hb
  refine List.inj_on_of_nodup_map hdistinct ha (hperm.mem_iff.1 hb) ?_
  rw [of_decide_eq_true hpa, of_decide_eq_true hpb]

end Order

section Calls

variable {agent : Address} {mode : ScanMode} {event : OracleEvent} {handlers : List Handler} {log : EventLog}
  {t u : Transcript interface}

/-- The event of a log that the handlers are told about. -/
def heard? (agent : Address) (log : EventLog) : Option OracleEvent :=
  (OracleEvent.ofLog? log.topics log.data).filter (concerns agent)

theorem heard?_eq_some_iff : heard? agent log = some event ↔
    OracleEvent.ofLog? log.topics log.data = some event ∧ (event.owner = none ∨ event.owner = some agent) := by
  unfold heard? concerns
  rw [Option.filter_eq_some_iff]
  refine and_congr_right fun _ => ?_
  cases event.owner with
  | none => exact iff_of_true rfl (.inl rfl)
  | some owner => simp

/-- Every handler for every event: all of them for one event before the next event. -/
def calls (handlers : List Handler) (events : List OracleEvent) : List (Handler × OracleEvent) :=
  events.flatMap fun event => handlers.map fun handler => (handler, event)

def reported (handler : Handler) (event : OracleEvent) : Except AgentError Unit → Transcript interface
  | .ok () => []
  | .error cause => [⟨.notify (.handlerFailed handler.name event.kind cause), ()⟩]

/-- These calls were made one after another, each to its end, and nothing was asked besides but to report
those that failed. -/
inductive Called (mode : ScanMode) : List (Handler × OracleEvent) → Transcript interface → Prop
  | nil : Called mode [] []
  | cons {handler : Handler} {event : OracleEvent} {result : Except AgentError Unit}
    {rest : List (Handler × OracleEvent)} {t u : Transcript interface}
    (call : (handle handler event mode).Reaches t (.done result)) (after : Called mode rest u) :
    Called mode ((handler, event) :: rest) (t ++ reported handler event result ++ u)

theorem Called.append {xs ys : List (Handler × OracleEvent)} (h : Called mode xs t)
    (h' : Called mode ys u) : Called mode (xs ++ ys) (t ++ u) := by
  induction h with
  | nil => exact h'
  | cons call after ih =>
    rw [List.append_assoc]
    exact .cons call ih

theorem called_handleAll (h : (handleAll event mode handlers).Reaches t (.done ())) :
    Called mode (handlers.map fun handler => (handler, event)) t := by
  induction handlers generalizing t with
  | nil =>
    cases h
    exact .nil
  | cons handler rest ih =>
    obtain ⟨t₁, t₂, result, rfl, hcall, hafter⟩ := Reaches.of_bind h
    cases result with
    | ok value =>
      have hcalled := Called.cons hcall (ih hafter)
      rwa [reported, List.append_nil] at hcalled
    | error cause =>
      obtain ⟨t₃, t₄, _, rfl, hreport, hrest⟩ := Reaches.of_bind hafter
      obtain rfl : t₃ = reported handler event (.error cause) := by
        cases hreport with
        | asked rest =>
          cases rest
          rfl
      rw [← List.append_assoc]
      exact .cons hcall (ih hrest)

theorem called_dispatch {outcome : DispatchOutcome}
    (h : (dispatch agent handlers log mode).Reaches t (.done outcome)) :
    Called mode (calls handlers (heard? agent log).toList) t := by
  unfold dispatch at h
  unfold heard?
  cases hevent : OracleEvent.ofLog? log.topics log.data with
  | none =>
    rw [hevent] at h
    cases h
    exact .nil
  | some event =>
    rw [hevent] at h
    dsimp only at h
    rw [Option.filter_some]
    split at h
    · rename_i hconcerns
      obtain ⟨t₁, t₂, _, rfl, hall, hend⟩ := Reaches.of_bind h
      cases hend
      rw [if_pos hconcerns, List.append_nil, calls, Option.toList_some, List.flatMap_singleton]
      exact called_handleAll hall
    · rename_i hconcerns
      cases h
      rw [if_neg hconcerns]
      exact .nil

theorem called_dispatchAll {p p' : Progress} {logs : List EventLog}
    (h : (dispatchAll agent handlers mode p logs).Reaches t (.done p')) :
    Called mode (calls handlers (logs.filterMap (heard? agent))) t := by
  induction logs generalizing p t with
  | nil =>
    cases h
    exact .nil
  | cons log rest ih =>
    obtain ⟨t₁, t₂, outcome, rfl, hfirst, hrest⟩ := Reaches.of_bind h
    have hevents : (log :: rest).filterMap (heard? agent) =
        (heard? agent log).toList ++ rest.filterMap (heard? agent) := by
      cases hheard : heard? agent log with
      | none => exact List.filterMap_cons_none hheard
      | some event => exact List.filterMap_cons_some hheard
    rw [hevents, calls, List.flatMap_append]
    exact (called_dispatch hfirst).append (ih hrest)

end Calls

end CommitReveal.Agent
