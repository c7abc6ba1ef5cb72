import CommitReveal.Proofs.Cards
import CommitReveal.Proofs.Obligation

/-! An operation of the repository by itself: some of its store calls may fail, done or not, and the
clock may move between two readings. -/
namespace CommitReveal.Repository

open Program
open Store (Backend StoreError)

inductive Fate where
  | heeded
  | failed (cause : StoreError) (applied : Bool)

/-- What becomes of each store call of an operation, and what the clock says each time, counted from
0. -/
structure Conditions where
  fate : Nat → Fate
  clock : Nat → Int64

structure Moment where
  store : Backend
  calls : List Store.Call
  readings : Nat

def Moment.first (b : Backend) : Moment :=
  ⟨b, [], 0⟩

def Fate.settle : Fate → (c : Store.Call) → Moment → Except StoreError c.Result × Moment
  | heeded, c, m => (.ok (m.store.perform c).1, ⟨(m.store.perform c).2, c :: m.calls, m.readings⟩)
  | failed cause applied, c, m =>
    (.error cause, ⟨if applied then (m.store.perform c).2 else m.store, c :: m.calls, m.readings⟩)

namespace Conditions

def fair (clock : Nat → Int64) : Conditions :=
  ⟨fun _ => .heeded, clock⟩

def answer (w : Conditions) : (r : Request) → Moment → r.Answer × Moment
  | .call c, m => (w.fate m.calls.length).settle c m
  | .clock, m => (w.clock m.readings, { m with readings := m.readings + 1 })

def perform (w : Conditions) (x : Action α) (b : Backend) : Except StoreError α × Moment :=
  x.run.run w.answer (.first b)

abbrev alone (w : Conditions) : Surroundings interface where
  State := Moment
  Allows _ _ := True
  Meanwhile _ m m' := m' = m
  Served r a m m' := w.answer r m = (a, m')

variable {w : Conditions} {α β : Type} {m : Moment} {Q : α → Moment → Prop} {R : StoreError → Moment → Prop}

theorem upholds_alone {p : Program interface α} :
    p.Upholds w.alone Q m ↔ Q (p.run w.answer m).1 (p.run w.answer m).2 := by
  induction p generalizing m with
  | done a => rfl
  | ask r next ih =>
    rw [upholds_ask, Program.run, ← ih]
    constructor
    · intro h
      exact (h m rfl).2 _ _ rfl
    · rintro h m' rfl
      refine ⟨trivial, fun a m'' hserved => ?_⟩
      rwa [hserved] at h

/-- How an operation ends is what it owes when it has the store to itself. -/
theorem outcome_perform {x : Action α} {b : Backend} :
    Outcome Q R (w.perform x b).1 (w.perform x b).2 ↔ Attempts w.alone x Q R (.first b) :=
  upholds_alone.symm

theorem attempts_call {c : Store.Call} {Q : c.Result → Moment → Prop} :
    Attempts w.alone (ExceptT.mk (Program.request (I := interface) (.call c)) : Action c.Result) Q R m ↔
      Outcome Q R ((w.fate m.calls.length).settle c m).1 ((w.fate m.calls.length).settle c m).2 :=
  upholds_alone

theorem attempts_now {Q : Int64 → Moment → Prop} : Attempts w.alone now Q R m ↔
    Q (w.clock m.readings) { m with readings := m.readings + 1 } :=
  (attempts_lift _).trans upholds_alone

end Conditions

end CommitReveal.Repository
