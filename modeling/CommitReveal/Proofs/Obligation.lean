import CommitReveal.Program

/-! What a program owes its surroundings. A program is a tree of requests, so that it asks only what
is allowed, and ends as promised, is a statement by recursion over the tree. Whoever else is at work
may change the surroundings before a request is answered. -/
namespace CommitReveal

/-- Where programs over an interface run. -/
structure Surroundings (I : Interface) where
  State : Type
  /-- What may be asked in a state. -/
  Allows : I.Request → State → Prop
  /-- What others may do between the asking and the answer. -/
  Meanwhile : I.Request → State → State → Prop
  /-- What an answer does. -/
  Served : (r : I.Request) → I.Answer r → State → State → Prop

structure Surroundings.Carries {I : Interface} (E : Surroundings I) (R : E.State → E.State → Prop) :
    Prop where
  right {σ τ : E.State} : R σ τ → R τ τ
  trans {σ τ υ : E.State} : R σ τ → R τ υ → R σ υ
  meanwhile {r : I.Request} {σ τ : E.State} : R σ σ → E.Meanwhile r σ τ → R σ τ
  served {r : I.Request} {a : I.Answer r} {σ τ : E.State} : R σ σ → E.Served r a σ τ → R σ τ

namespace Program

variable {I : Interface} {E : Surroundings I} {α β : Type} {σ : E.State}

/-- Begun in a state, the program asks only what is allowed, whatever is answered, and every end it
comes to meets `Q`. -/
def Upholds (E : Surroundings I) : Program I α → (α → E.State → Prop) → E.State → Prop
  | done a, Q, σ => Q a σ
  | ask r next, Q, σ => ∀ τ, E.Meanwhile r σ τ →
      E.Allows r τ ∧ ∀ a υ, E.Served r a τ υ → Upholds E (next a) Q υ

@[simp] theorem upholds_done (a : α) (Q : α → E.State → Prop) :
    (done a).Upholds E Q σ ↔ Q a σ := Iff.rfl

theorem upholds_ask (r : I.Request) (next : I.Answer r → Program I α) (Q : α → E.State → Prop) :
    (ask r next).Upholds E Q σ ↔ ∀ τ, E.Meanwhile r σ τ →
      E.Allows r τ ∧ ∀ a υ, E.Served r a τ υ → (next a).Upholds E Q υ := Iff.rfl

theorem upholds_bind (p : Program I α) (f : α → Program I β) (Q : β → E.State → Prop) :
    (p.bind f).Upholds E Q σ ↔ p.Upholds E (fun a τ => (f a).Upholds E Q τ) σ := by
  induction p generalizing σ with
  | done a => rfl
  | ask r next ih =>
    rw [ask_bind, upholds_ask, upholds_ask]
    simp only [ih]

theorem Upholds.imp {p : Program I α} {Q Q' : α → E.State → Prop} (h : p.Upholds E Q σ)
    (hQ : ∀ a τ, Q a τ → Q' a τ) : p.Upholds E Q' σ := by
  induction p generalizing σ with
  | done a => exact hQ a σ h
  | ask r next ih =>
    intro τ hτ
    obtain ⟨hallows, hnext⟩ := h τ hτ
    exact ⟨hallows, fun a υ hυ => ih a (hnext a υ hυ)⟩

theorem Upholds.bind {p : Program I α} {f : α → Program I β} {Q : α → E.State → Prop}
    {Q' : β → E.State → Prop} (h : p.Upholds E Q σ)
    (hf : ∀ a τ, Q a τ → (f a).Upholds E Q' τ) : (p.bind f).Upholds E Q' σ :=
  (upholds_bind p f Q').2 (h.imp hf)

/-- What others and answers keep holds from the beginning to the end. -/
theorem Upholds.carried {p : Program I α} {Q : α → E.State → Prop} {R : E.State → E.State → Prop}
    (hR : E.Carries R) (hσ : R σ σ) (h : p.Upholds E Q σ) :
    p.Upholds E (fun a τ => Q a τ ∧ R σ τ) σ := by
  induction p generalizing σ with
  | done a => exact ⟨h, hσ⟩
  | ask r next ih =>
    intro τ hτ
    obtain ⟨hallows, hnext⟩ := h τ hτ
    refine ⟨hallows, fun a υ hυ => ?_⟩
    have hστ : R σ τ := hR.meanwhile hσ hτ
    have hτυ : R τ υ := hR.served (hR.right hστ) hυ
    apply (ih a (hR.right hτυ) (hnext a υ hυ)).imp
    intro b ω hω
    exact ⟨hω.1, hR.trans (hR.trans hστ hτυ) hω.2⟩

theorem Upholds.andThen {p : Program I α} {f : α → Program I β} {Q : α → E.State → Prop}
    {Q' : β → E.State → Prop} {R : E.State → E.State → Prop} (hR : E.Carries R) (hσ : R σ σ)
    (h : p.Upholds E Q σ) (hf : ∀ a τ, Q a τ → R σ τ → (f a).Upholds E Q' τ) :
    (p.bind f).Upholds E Q' σ :=
  (h.carried hR hσ).bind fun a τ hτ => hf a τ hτ.1 hτ.2

/-- One postcondition for a value, another for a failure. -/
def Outcome {ε S : Type} (Q : α → S → Prop) (R : ε → S → Prop) : Except ε α → S → Prop
  | .ok a => Q a
  | .error e => R e

def Attempts {ε : Type} (E : Surroundings I) (x : ExceptT ε (Program I) α) (Q : α → E.State → Prop)
    (R : ε → E.State → Prop) (σ : E.State) : Prop :=
  x.run.Upholds E (Outcome Q R) σ

section Attempts

variable {ε : Type} {x : ExceptT ε (Program I) α} {f : α → ExceptT ε (Program I) β}
  {Q : α → E.State → Prop} {R : ε → E.State → Prop} {Q' : β → E.State → Prop}

@[simp] theorem attempts_pure (a : α) : Attempts E (pure a : ExceptT ε (Program I) α) Q R σ ↔ Q a σ :=
  Iff.rfl

@[simp] theorem attempts_throw (e : ε) :
    Attempts E (throw e : ExceptT ε (Program I) α) Q R σ ↔ R e σ := Iff.rfl

@[simp] theorem attempts_ofExcept (e : Except ε α) :
    Attempts E (liftM e : ExceptT ε (Program I) α) Q R σ ↔ Outcome Q R e σ := by
  cases e <;> rfl

theorem attempts_mk (p : Program I (Except ε α)) :
    Attempts E (ExceptT.mk p) Q R σ ↔ p.Upholds E (Outcome Q R) σ := Iff.rfl

@[simp] theorem attempts_lift (p : Program I α) :
    Attempts E (liftM p : ExceptT ε (Program I) α) Q R σ ↔ p.Upholds E Q σ :=
  upholds_bind p (fun a => done (.ok a : Except ε α)) (Outcome Q R)

theorem attempts_bind : Attempts E (x >>= f) Q' R σ ↔
    Attempts E x (fun a τ => Attempts E (f a) Q' R τ) R σ := by
  have hrun : (x >>= f).run = x.run.bind fun
      | .ok a => (f a).run
      | .error e => done (.error e) := by
    rw [ExceptT.run_bind]
    congr 1
    funext o
    cases o <;> rfl
  unfold Attempts
  rw [hrun, upholds_bind]
  constructor
  · intro h
    refine h.imp fun o τ ho => ?_
    cases o <;> exact ho
  · intro h
    refine h.imp fun o τ ho => ?_
    cases o <;> exact ho

theorem Attempts.imp {R' : ε → E.State → Prop} {P : α → E.State → Prop} (h : Attempts E x Q R σ)
    (hQ : ∀ a τ, Q a τ → P a τ) (hR : ∀ e τ, R e τ → R' e τ) : Attempts E x P R' σ := by
  refine Upholds.imp h fun o τ ho => ?_
  cases o with
  | ok a => exact hQ a τ ho
  | error e => exact hR e τ ho

theorem Attempts.andThen {P : α → E.State → Prop} {S : E.State → E.State → Prop}
    (hS : E.Carries S) (hσ : S σ σ) (h : Attempts E x P R σ)
    (hf : ∀ a τ, P a τ → S σ τ → Attempts E (f a) Q' R τ) : Attempts E (x >>= f) Q' R σ := by
  refine attempts_bind.2 ((Upholds.carried hS hσ h).imp fun o τ ho => ?_)
  cases o with
  | ok a => exact hf a τ ho.1 ho.2
  | error e => exact ho.1

@[simp] theorem attempts_discard {P : PUnit → E.State → Prop} :
    Attempts E (discard x) P R σ ↔ Attempts E x (fun _ τ => P PUnit.unit τ) R σ :=
  attempts_bind

theorem upholds_run {P : E.State → Prop} :
    x.run.Upholds E (fun _ τ => P τ) σ ↔ Attempts E x (fun _ τ => P τ) (fun _ τ => P τ) σ := by
  constructor
  · intro h
    refine Upholds.imp h fun o τ ho => ?_
    cases o <;> exact ho
  · intro h
    refine Upholds.imp h fun o τ ho => ?_
    cases o <;> exact ho

end Attempts

end Program

end CommitReveal
