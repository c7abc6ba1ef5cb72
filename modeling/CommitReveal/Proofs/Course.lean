import CommitReveal.Proofs.Races
import CommitReveal.Proofs.Transcript
import CommitReveal.Simulation.Schedule

/-! A program on its way through the simulated world. It looks at each of its requests until there is an answer;
between two looks the others may do anything they are allowed to. Whatever the schedule comes to for a program is the
end of such a course. -/
namespace CommitReveal.Simulation

open Agent (Request Activity)
open Program

variable {O : World → World → Prop} {home : Nat} {α β : Type} {p : Activity α} {a : α} {w v : World}

/-- A look at a request, and the world before and behind it. -/
structure Look where
  request : Request
  before : World
  after : World

/-- A request is looked at until it is answered. -/
inductive Awaits (O : World → World → Prop) (home : Nat) (r : Request) :
    Option Wait → World → List Look → r.Answer → World → Prop
  | answered {before : Option Wait} {w v : World} {a : r.Answer} (reply : w.poll home r before = (.answer a, v)) :
    Awaits O home r before w [⟨r, w, v⟩] a v
  | waited {before : Option Wait} {w w' v v' : World} {wait : Wait} {anew : Bool} {looks : List Look}
    {a : r.Answer} (reply : w.poll home r before = (.wait wait anew, w')) (others : O w' v)
    (later : Awaits O home r (some wait) v looks a v') : Awaits O home r before w (⟨r, w, w'⟩ :: looks) a v'

/-- Begun in one world, the program may come to an end in another after these looks. -/
inductive Course (O : World → World → Prop) (home : Nat) : Activity α → World → List Look → α → World → Prop
  | done (a : α) (w : World) : Course O home (.done a) w [] a w
  | ask {r : Request} {next : r.Answer → Activity α} {a : r.Answer} {b : α} {looks later : List Look}
    {w v v' : World} (awaits : Awaits O home r none w looks a v) (rest : Course O home (next a) v later b v') :
    Course O home (.ask r next) w (looks ++ later) b v'

variable {looks : List Look}

@[simp] theorem course_done {b : α} : Course O home (.done a) w looks b v ↔ looks = [] ∧ b = a ∧ v = w := by
  constructor
  · intro h
    cases h
    exact ⟨rfl, rfl, rfl⟩
  · rintro ⟨rfl, rfl, rfl⟩
    exact .done b v

theorem course_ask {r : Request} {next : r.Answer → Activity α} : Course O home (.ask r next) w looks a v ↔
    ∃ first later b v', looks = first ++ later ∧ Awaits O home r none w first b v' ∧
      Course O home (next b) v' later a v := by
  constructor
  · intro h
    cases h with
    | ask awaits rest => exact ⟨_, _, _, _, rfl, awaits, rest⟩
  · rintro ⟨first, later, b, v', rfl, hawaits, hrest⟩
    exact .ask hawaits hrest

theorem Course.of_ask {r : Request} {f : r.Answer → Activity α}
    (h : Course O home ((Agent.ask r).bind f) w looks a v) :
    ∃ first later b v', looks = first ++ later ∧ Awaits O home r none w first b v' ∧
      Course O home (f b) v' later a v :=
  course_ask.1 h

theorem Course.of_bind {f : α → Activity β} {b : β} (h : Course O home (p.bind f) w looks b v) :
    ∃ first later a v', looks = first ++ later ∧
      Course O home p w first a v' ∧ Course O home (f a) v' later b v := by
  induction p generalizing w looks with
  | done a => exact ⟨[], looks, a, w, rfl, .done a w, h⟩
  | ask r next ih =>
    obtain ⟨first, later, x, v', rfl, hawaits, hrest⟩ := course_ask.1 h
    obtain ⟨first', later', a, v'', rfl, hp, hf⟩ := ih x hrest
    exact ⟨first ++ first', later', a, v'', (List.append_assoc ..).symm, .ask hawaits hp, hf⟩

theorem Course.bind {f : α → Activity β} {b : β} {later : List Look} {v' : World}
    (hp : Course O home p w looks a v) (hf : Course O home (f a) v later b v') :
    Course O home (p.bind f) w (looks ++ later) b v' := by
  induction hp with
  | done a w => exact hf
  | ask awaits rest ih =>
    rw [List.append_assoc]
    exact .ask awaits (ih hf)

theorem Course.reaches (h : Course O home p w looks a v) : ∃ t, p.Reaches t (.done a) := by
  induction h with
  | done a w => exact ⟨[], .here _⟩
  | @ask r next a b looks later w v v' awaits rest ih =>
    obtain ⟨t, hreach⟩ := ih
    exact ⟨⟨r, a⟩ :: t, .asked hreach⟩

theorem Course.exists_bind {f : α → Activity β} (hp : Course O home p w looks a v)
    (hf : ∃ later b v', Course O home (f a) v later b v') :
    ∃ looks b v', Course O home (p.bind f) w looks b v' := by
  obtain ⟨later, b, v', hf⟩ := hf
  exact ⟨_, b, v', hp.bind hf⟩

def Answered (home : Nat) (r : Request) : Prop :=
  ∀ w : World, ∃ a v, w.poll home r none = (.answer a, v)

theorem exists_course (hp : p.Only (Answered home)) (w : World) : ∃ looks a v, Course O home p w looks a v := by
  induction p generalizing w with
  | done a => exact ⟨[], a, w, .done a w⟩
  | ask r next ih =>
    obtain ⟨b, w', hpoll⟩ := hp.1 w
    obtain ⟨looks, a, v, hrest⟩ := ih b (hp.2 b) w'
    exact ⟨_, a, v, .ask (.answered hpoll) hrest⟩

section Looks

variable {r : Request} {before : Option Wait} {b : r.Answer}

theorem Awaits.forall_looks {P : Look → Prop} (hlook : ∀ before w, P ⟨r, w, (w.poll home r before).2⟩)
    (h : Awaits O home r before w looks b v) : ∀ look ∈ looks, P look := by
  induction h with
  | @answered before w v b reply =>
    have hP := hlook before w
    rw [reply] at hP
    exact List.forall_mem_singleton.2 hP
  | @waited before w w' v v' wait anew looks b reply others later ih =>
    have hP := hlook before w
    rw [reply] at hP
    exact List.forall_mem_cons.2 ⟨hP, ih⟩

theorem Course.forall_looks {K : Request → Prop} {P : Look → Prop} (hp : p.Only K)
    (hlook : ∀ r before w, K r → P ⟨r, w, (w.poll home r before).2⟩) (h : Course O home p w looks a v) :
    ∀ look ∈ looks, P look := by
  induction h with
  | done a w => exact List.forall_mem_nil _
  | ask awaits rest ih =>
    exact List.forall_mem_append.2 ⟨awaits.forall_looks fun before w => hlook _ before w hp.1, ih (hp.2 _)⟩

theorem Awaits.at_once (hr : ∀ wait anew v, w.poll home r before ≠ (.wait wait anew, v))
    (h : Awaits O home r before w looks b v) : looks = [⟨r, w, v⟩] ∧ w.poll home r before = (.answer b, v) := by
  cases h with
  | answered reply => exact ⟨rfl, reply⟩
  | waited reply others later => exact absurd reply (hr _ _ _)

theorem Awaits.last (h : Awaits O home r before w looks b v) : ∃ waits last w', looks = waits ++ [⟨r, w', v⟩] ∧
    (∀ look ∈ waits, ∃ before wait anew, look.before.poll home r before = (.wait wait anew, look.after)) ∧
    w'.poll home r last = (.answer b, v) := by
  induction h with
  | @answered before w v b reply => exact ⟨[], before, w, rfl, List.forall_mem_nil _, reply⟩
  | @waited before w w' v v' wait anew looks b reply others later ih =>
    obtain ⟨waits, last, w'', rfl, hwaits, hlast⟩ := ih
    exact ⟨_ :: waits, last, w'', rfl, List.forall_mem_cons.2 ⟨⟨before, wait, anew, reply⟩, hwaits⟩, hlast⟩

variable {R : World → World → Prop}

theorem Awaits.carried (trans : ∀ {u v w}, R u v → R v w → R u w) (hO : ∀ w v, O w v → R w v)
    (hlooks : ∀ look ∈ looks, R look.before look.after) (h : Awaits O home r before w looks b v) : R w v := by
  induction h with
  | answered reply => exact hlooks _ List.mem_cons_self
  | waited reply others later ih =>
    obtain ⟨hfirst, hlater⟩ := List.forall_mem_cons.1 hlooks
    exact trans hfirst (trans (hO _ _ others) (ih hlater))

/-- What holds across every look and across what the others do holds from the beginning of a course to its end. -/
theorem Course.carried (refl : ∀ w, R w w) (trans : ∀ {u v w}, R u v → R v w → R u w)
    (hO : ∀ w v, O w v → R w v) (hlooks : ∀ look ∈ looks, R look.before look.after)
    (h : Course O home p w looks a v) : R w v := by
  induction h with
  | done a w => exact refl w
  | ask awaits rest ih =>
    obtain ⟨hfirst, hlater⟩ := List.forall_mem_append.1 hlooks
    exact trans (awaits.carried trans hO hfirst) (ih hlater)

end Looks

section Schedule

/-- What a program has come to, once it has ended. -/
def Stop.value? : Stop α → Option α
  | .done a => some a
  | _ => none

theorem Stop.value?_eq_some_iff {stop : Stop α} : stop.value? = some a ↔ stop = .done a := by
  cases stop with
  | done b => exact ⟨fun h => congrArg done (Option.some.inj h), fun h => congrArg some (done.inj h)⟩
  | suspended s => exact ⟨nofun, nofun⟩
  | fault f => exact ⟨nofun, nofun⟩

/-- The others may do whatever the schedule does between two looks of the foreground. -/
structure Schedules (O : World → World → Prop) : Prop where
  trans {u v w : World} : O u v → O v w → O u w
  stamps (w : World) (since : Option Nat) (anew : Bool) : O w (w.stampFor since anew).2
  runs (w : World) (ready : List Nat) (id : Nat) : O w (World.runTask { w with ready } id)
  wakes (w : World) : O w { w with foregroundWoken := false }
  advances (w : World) (time : Nat) : O w (w.advance time)
  races (w : World) (first second : Bool) : O w (w.race first second).2

/-- Where running has led, the program may still come to this end. -/
def Onward (O : World → World → Prop) (home : Nat) (stop : Stop α) (w : World) (a : α) (v : World) : Prop :=
  match stop with
  | .done b => b = a ∧ w = v
  | .suspended s => ∃ w' looks b v' later, O w w' ∧ Awaits O home s.request (some s.wait) w' looks b v' ∧
      Course O home (s.next b) v' later a v
  | .fault _ => False

theorem Onward.later {s : Suspended α} (hO : Schedules O) {w' : World} (others : O w w')
    (h : Onward O home (.suspended s) w' a v) : Onward O home (.suspended s) w a v := by
  obtain ⟨w'', looks, b, v', later, hothers, hawaits, hrest⟩ := h
  exact ⟨w'', looks, b, v', later, hO.trans others hothers, hawaits, hrest⟩

theorem course_of_run (hO : Schedules O) (h : Onward O home (run home p w).1 (run home p w).2 a v) :
    ∃ looks, Course O home p w looks a v := by
  induction p generalizing w with
  | done b =>
    obtain ⟨rfl, rfl⟩ := h
    exact ⟨[], .done _ _⟩
  | ask r next ih =>
    unfold run at h
    split at h
    · rename_i b w' hpoll
      obtain ⟨looks, hrest⟩ := ih b h
      exact ⟨_, .ask (.answered hpoll) hrest⟩
    · exact h.elim
    · rename_i wait anew w' hpoll
      obtain ⟨w'', looks, b, v', later, hothers, hawaits, hrest⟩ := h
      exact ⟨_, .ask (.waited hpoll (hO.trans (hO.stamps w' none anew) hothers) hawaits) hrest⟩

theorem onward_of_resume {s : Suspended α} (hO : Schedules O) {w' : World} (others : O w w')
    (h : Onward O home (resume home s w').1 (resume home s w').2 a v) : Onward O home (.suspended s) w a v := by
  unfold resume at h
  split at h
  · rename_i b v' hpoll
    obtain ⟨later, hrest⟩ := course_of_run hO h
    exact ⟨w', _, b, v', later, others, .answered hpoll, hrest⟩
  · exact h.elim
  · rename_i wait anew w₁ hpoll
    obtain ⟨w'', looks, b, v'', later, hothers, hawaits, hrest⟩ := h
    exact ⟨w', _, b, v'', later, others,
      .waited hpoll (hO.trans (hO.stamps w₁ (some s.since) anew) hothers) hawaits, hrest⟩

theorem onward_of_finish (hO : Schedules O) {fuel : Nat} {stop : Stop α}
    (h : finish home fuel (stop, w) = (.done a, v)) : Onward O home stop w a v := by
  induction fuel generalizing stop w with
  | zero =>
    cases h
    exact ⟨rfl, rfl⟩
  | succ fuel ih =>
    cases stop with
    | done b =>
      cases h
      exact ⟨rfl, rfl⟩
    | fault f => cases h
    | suspended s =>
      unfold finish at h
      split at h
      · exact (ih h).later hO (hO.runs w _ _)
      · split at h
        · exact onward_of_resume hO (hO.wakes w) (ih h)
        · split at h
          · cases h
          · rename_i time _
            have hraces := hO.trans (hO.advances w time) (hO.races (w.advance time)
              (s.wait.due?.any (· ≤ (w.advance time).now)) (!(w.advance time).ready.isEmpty))
            dsimp only at h
            split at h
            · rename_i hrace
              rw [hrace] at hraces
              exact onward_of_resume hO hraces (ih h)
            · rename_i hrace
              rw [hrace] at hraces
              exact (ih h).later hO hraces

/-- However the background goes on, what the foreground comes to is the end of a course. -/
theorem course_of_finish (hO : Schedules O) {fuel : Nat} (h : finish home fuel (run home p w) = (.done a, v)) :
    ∃ looks, Course O home p w looks a v :=
  course_of_run hO (onward_of_finish hO h)

def Alone (w v : World) : Prop :=
  w.tasks = #[] → ∃ now ready stamp foregroundWoken flips, v = { w with now, ready, stamp, foregroundWoken, flips }

theorem schedules_alone : Schedules Alone where
  trans h h' hu := by
    obtain ⟨_, _, _, _, _, rfl⟩ := h hu
    exact h' hu
  stamps w since anew _ := by
    unfold World.stampFor
    split <;> exact ⟨_, _, _, _, _, rfl⟩
  runs w ready id hw := by
    have hnone : w.tasks[id]? = none := by
      rw [hw]
      rfl
    unfold World.runTask
    rw [hnone]
    exact ⟨_, _, _, _, _, rfl⟩
  wakes _ _ := ⟨_, _, _, _, _, rfl⟩
  advances _ _ _ := ⟨_, _, _, _, _, rfl⟩
  races w first second _ := by
    obtain ⟨flips, hv⟩ := w.exists_flips_race first second
    exact ⟨_, _, _, _, flips, hv⟩

end Schedule

end CommitReveal.Simulation
