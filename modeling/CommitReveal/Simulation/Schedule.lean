import CommitReveal.Simulation.World

/-! One schedule of all tasks: a task runs until it waits; tasks that can run do so in the order in
which they became ready; the foreground goes on when none of them can; only then does the clock move, to
the next time that anything waits for. Where the time of the foreground and that of a task have come
together, either may go first. -/
namespace CommitReveal.Simulation

open Agent (Routine Request Activity)

/-- Where running a program has led. -/
inductive Stop (α : Type) where
  | done (a : α)
  | suspended (s : Suspended α)
  | fault (f : Fault)

/-- The place of a wait in the order of waits: its old one, unless it begins now. -/
def World.stampFor (w : World) (since : Option Nat) (anew : Bool) : Nat × World :=
  match since, anew with
  | some since, false => (since, w)
  | _, _ => (w.stamp, { w with stamp := w.stamp + 1 })

/-- Runs a program until it ends or waits. -/
def run (home : Nat) : Activity α → World → Stop α × World
  | .done a, w => (.done a, w)
  | .ask r next, w =>
    match w.poll home r none with
    | (.answer a, w) => run home (next a) w
    | (.fault f, w) => (.fault f, w)
    | (.wait wait anew, w) =>
      let (since, w) := w.stampFor none anew
      (.suspended ⟨r, wait, since, next⟩, w)

/-- Polls what a program waits for, and goes on with the program if it can. -/
def resume (home : Nat) (s : Suspended α) (w : World) : Stop α × World :=
  match w.poll home s.request (some s.wait) with
  | (.answer a, w) => run home (s.next a) w
  | (.fault f, w) => (.fault f, w)
  | (.wait wait anew, w) =>
    let (since, w) := w.stampFor (some s.since) anew
    (.suspended { s with wait, since }, w)

def World.setTask (w : World) (id home : Nat) (state : TaskState) : World :=
  { w with tasks := w.tasks.setIfInBounds id ⟨home, state⟩ }

def World.endTask (w : World) (id home : Nat) : World :=
  { w.setTask id home .ended with foregroundWoken := true }

/-- Lets a task run turn after turn, `fuel` of them at most, until it waits or ends. -/
def turns (id home : Nat) (s : Agent.Settings) :
    (fuel : Nat) → Stop (Option Routine) × World → World
  | _, (.suspended p, w) => w.setTask id home (.suspended p)
  | _, (.done none, w) => w.endTask id home
  | _, (.fault _, w) => w.endTask id home
  | 0, (.done (some _), w) => w.endTask id home
  | fuel + 1, (.done (some r), w) => turns id home s fuel (run home (r.turn s) w)

/-- A bound on turns and on moves of the clock that no run comes near. -/
def patience : Nat := 1000000000000

def World.runTask (w : World) (id : Nat) : World :=
  match w.tasks[id]? with
  | none => w
  | some t =>
    match w.settings? t.home, t.state with
    | some s, .runnable p => turns id t.home s patience (run t.home p w)
    | some s, .suspended p => turns id t.home s patience (resume t.home p w)
    | _, _ => w

/-- Tasks with a time to wait for, the earliest first, and of one time the longest waiting first. -/
def World.timers (w : World) : List (Nat × Nat × Nat) :=
  let dues := w.suspensions.filterMap fun (id, _, s) => s.wait.due?.map fun due => (due, s.since, id)
  dues.mergeSort fun a b => a.1 < b.1 || (a.1 == b.1 && a.2.1 ≤ b.2.1)

/-- The next time that anything waits for. -/
def World.nextDue (w : World) (foreground : Wait) : Option Nat :=
  let dues := w.timers.map (·.1) ++ foreground.due?.toList
  dues.min?

/-- Moves the clock and wakes the tasks whose time has come. -/
def World.advance (w : World) (time : Nat) : World :=
  let w := { w with now := max w.now time }
  w.wake ((w.timers.filter fun t => t.1 ≤ w.now).map (·.2.2))

/-- Lets everything run until the foreground program has ended. -/
def finish (home : Nat) : (fuel : Nat) → Stop α × World → Stop α × World
  | 0, stop => stop
  | fuel + 1, (.suspended s, w) =>
    match w.ready with
    | id :: rest => finish home fuel (.suspended s, { w with ready := rest }.runTask id)
    | [] =>
      if w.foregroundWoken then
        finish home fuel (resume home s { w with foregroundWoken := false })
      else
        match w.nextDue s.wait with
        | none => (.suspended s, w)
        | some time =>
          let w := w.advance time
          match w.race (s.wait.due?.any (· ≤ w.now)) (!w.ready.isEmpty) with
          | (some .first, w) => finish home fuel (resume home s w)
          | (_, w) => finish home fuel (.suspended s, w)
  | _ + 1, stop => stop

/-- Lets the background run, `fuel` turns at most, as long as it can without the clock moving. -/
def settle : (fuel : Nat) → World → World
  | 0, w => w
  | fuel + 1, w =>
    match w.ready with
    | [] => w
    | id :: rest => settle fuel ({ w with ready := rest }.runTask id)

/-- Runs a program in the foreground of a home, to its end. -/
def World.perform (w : World) (home : Nat) (program : Activity α) : Stop α × World :=
  finish home patience (run home program w)

end CommitReveal.Simulation
