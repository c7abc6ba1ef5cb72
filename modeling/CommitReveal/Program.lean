/-! Programs whose every effect is a visible request. A program is a tree: it has ended with a
value, or it asks its surroundings something and goes on with the answer. What a request does is
decided elsewhere, so one program can be run on a schedule, against any answers, or step by step. -/
namespace CommitReveal

/-- What may be asked, and the type of each answer. -/
structure Interface where
  Request : Type
  Answer : Request → Type

inductive Program (I : Interface) (α : Type) where
  | done (value : α)
  | ask (request : I.Request) (next : I.Answer request → Program I α)

namespace Program

variable {I J : Interface} {α β σ : Type}

def bind : Program I α → (α → Program I β) → Program I β
  | done a, f => f a
  | ask r next, f => ask r fun answer => (next answer).bind f

instance : Monad (Program I) where
  pure := done
  bind := bind

/-- Asks one thing and ends with the answer. -/
def request (r : I.Request) : Program I (I.Answer r) :=
  ask r done

@[simp] theorem pure_eq_done (a : α) : (pure a : Program I α) = done a := rfl

@[simp] theorem bind_eq (p : Program I α) (f : α → Program I β) : p >>= f = p.bind f := rfl

@[simp] theorem done_bind (a : α) (f : α → Program I β) : (done a).bind f = f a := rfl

@[simp] theorem ask_bind (r : I.Request) (next : I.Answer r → Program I α) (f : α → Program I β) :
    (ask r next).bind f = ask r fun answer => (next answer).bind f := rfl

@[simp] theorem bind_done (p : Program I α) : p.bind done = p := by
  induction p with
  | done a => rfl
  | ask r next ih => exact congrArg (ask r) (funext ih)

theorem bind_assoc {γ : Type} (p : Program I α) (f : α → Program I β) (g : β → Program I γ) :
    (p.bind f).bind g = p.bind fun a => (f a).bind g := by
  induction p with
  | done a => rfl
  | ask r next ih => exact congrArg (ask r) (funext ih)

instance : LawfulMonad (Program I) :=
  LawfulMonad.mk' _ (fun p => bind_done p) (fun _ _ => rfl) (fun p f g => bind_assoc p f g)

/-- Runs a program against a state that answers every request at once. -/
def run (answer : (r : I.Request) → σ → I.Answer r × σ) : Program I α → σ → α × σ
  | done a, s => (a, s)
  | ask r next, s => (next (answer r s).1).run answer (answer r s).2

@[simp] theorem run_done (answer : (r : I.Request) → σ → I.Answer r × σ) (a : α) (s : σ) :
    (done a).run answer s = (a, s) := rfl

theorem run_bind (answer : (r : I.Request) → σ → I.Answer r × σ) (p : Program I α)
    (f : α → Program I β) (s : σ) :
    (p.bind f).run answer s = (f (p.run answer s).1).run answer (p.run answer s).2 := by
  induction p generalizing s with
  | done a => rfl
  | ask r next ih => exact ih _ _

/-- Answers every request by a program over another interface. -/
def interpret (f : (r : I.Request) → Program J (I.Answer r)) : Program I α → Program J α
  | done a => done a
  | ask r next => (f r).bind fun answer => (next answer).interpret f

@[simp] theorem interpret_done (f : (r : I.Request) → Program J (I.Answer r)) (a : α) :
    (done a : Program I α).interpret f = done a := rfl

theorem interpret_bind (f : (r : I.Request) → Program J (I.Answer r)) (p : Program I α)
    (g : α → Program I β) : (p.bind g).interpret f = (p.interpret f).bind fun a => (g a).interpret f := by
  induction p with
  | done a => rfl
  | ask r next ih =>
    simp only [ask_bind, interpret, bind_assoc]
    exact congrArg (f r).bind (funext ih)

end Program

end CommitReveal
