import CommitReveal.Proofs.Replay

/-! One program among others, and every end that it may come to: what it asked and was answered on the way,
what the others made of the state whenever it waited, and what became of it. -/
namespace CommitReveal

namespace Program

variable {I : Interface} {E : Surroundings I} {α β : Type} {p : Program I α} {a : α} {σ τ : E.State}
  {t u : Transcript I}

/-- Begun in one state, the program may come to an end in another after these requests and answers. -/
inductive EndsAfter (E : Surroundings I) : Program I α → E.State → Transcript I → α → E.State → Prop
  | done (a : α) (σ : E.State) : EndsAfter E (done a) σ [] a σ
  | ask {r : I.Request} {next : I.Answer r → Program I α} {a : I.Answer r} {t : Transcript I} {b : α}
    {σ τ υ ω : E.State} (meanwhile : E.Meanwhile r σ τ) (served : E.Served r a τ υ)
    (rest : EndsAfter E (next a) υ t b ω) : EndsAfter E (ask r next) σ (⟨r, a⟩ :: t) b ω

@[simp] theorem endsAfter_done {b : α} : (done a).EndsAfter E σ t b τ ↔ t = [] ∧ b = a ∧ τ = σ := by
  constructor
  · intro h
    cases h
    exact ⟨rfl, rfl, rfl⟩
  · rintro ⟨rfl, rfl, rfl⟩
    exact .done b τ

theorem endsAfter_ask {r : I.Request} {next : I.Answer r → Program I α} :
    (ask r next).EndsAfter E σ t a τ ↔ ∃ x u υ ω, t = ⟨r, x⟩ :: u ∧ E.Meanwhile r σ υ ∧ E.Served r x υ ω ∧
      (next x).EndsAfter E ω u a τ := by
  constructor
  · intro h
    cases h with
    | ask meanwhile served rest => exact ⟨_, _, _, _, rfl, meanwhile, served, rest⟩
  · rintro ⟨x, u, υ, ω, rfl, meanwhile, served, rest⟩
    exact .ask meanwhile served rest

theorem EndsAfter.ends (h : p.EndsAfter E σ t a τ) : p.Ends E σ a τ := by
  induction h with
  | done a σ => exact .done a σ
  | ask meanwhile served rest ih => exact .ask meanwhile served ih

theorem EndsAfter.reaches (h : p.EndsAfter E σ t a τ) : p.Reaches t (.done a) := by
  induction h with
  | done a σ => exact .here _
  | ask meanwhile served rest ih => exact .asked ih

theorem EndsAfter.of_bind {f : α → Program I β} {b : β} (h : (p.bind f).EndsAfter E σ t b τ) :
    ∃ t₁ t₂ a υ, t = t₁ ++ t₂ ∧ p.EndsAfter E σ t₁ a υ ∧ (f a).EndsAfter E υ t₂ b τ := by
  induction p generalizing σ t with
  | done a => exact ⟨[], t, a, σ, rfl, .done a σ, h⟩
  | ask r next ih =>
    cases h with
    | ask meanwhile served rest =>
      obtain ⟨t₁, t₂, a, υ, rfl, hp, hf⟩ := ih _ rest
      exact ⟨_ :: t₁, t₂, a, υ, rfl, .ask meanwhile served hp, hf⟩

theorem EndsAfter.bind {f : α → Program I β} {b : β} {υ : E.State} (hp : p.EndsAfter E σ t a υ)
    (hf : (f a).EndsAfter E υ u b τ) : (p.bind f).EndsAfter E σ (t ++ u) b τ := by
  induction hp with
  | done a σ => exact hf
  | ask meanwhile served rest ih => exact .ask meanwhile served (ih hf)

theorem EndsAfter.of_attempt {ε : Type} {x : ExceptT ε (Program I) α} {f : α → ExceptT ε (Program I) β}
    {result : Except ε β} (h : (x >>= f).run.EndsAfter E σ t result τ) :
    (∃ e, result = .error e ∧ x.run.EndsAfter E σ t (.error e) τ) ∨
      ∃ t₁ t₂ a υ, t = t₁ ++ t₂ ∧ x.run.EndsAfter E σ t₁ (.ok a) υ ∧ (f a).run.EndsAfter E υ t₂ result τ := by
  obtain ⟨t₁, t₂, outcome, υ, rfl, hx, hf⟩ := EndsAfter.of_bind h
  cases outcome with
  | ok a => exact .inr ⟨t₁, t₂, a, υ, rfl, hx, hf⟩
  | error e =>
    obtain ⟨rfl, rfl, rfl⟩ := endsAfter_done.1 hf
    exact .inl ⟨e, rfl, by rwa [List.append_nil]⟩

theorem EndsAfter.of_lift {ε : Type} {result : Except ε α}
    (h : (liftM p : ExceptT ε (Program I) α).run.EndsAfter E σ t result τ) :
    ∃ a, result = .ok a ∧ p.EndsAfter E σ t a τ := by
  obtain ⟨t₁, t₂, a, υ, rfl, hp, hrest⟩ := EndsAfter.of_bind h
  obtain ⟨rfl, rfl, rfl⟩ := endsAfter_done.1 hrest
  exact ⟨a, rfl, by rwa [List.append_nil]⟩

/-- An answer makes no difference if the program goes on in the same way after another one, which is served
in the same way. -/
theorem EndsAfter.otherwise {r : I.Request} {next : I.Answer r → Program I α} {x y : I.Answer r}
    (hreach : p.Reaches t (.ask r next)) (hnext : next y = next x)
    (hserved : ∀ σ τ, E.Served r x σ τ → E.Served r y σ τ) (h : p.EndsAfter E σ (t ++ ⟨r, x⟩ :: u) a τ) :
    p.EndsAfter E σ (t ++ ⟨r, y⟩ :: u) a τ := by
  generalize hq : Program.ask r next = q at hreach
  induction hreach generalizing σ with
  | here p =>
    subst hq
    cases h with
    | ask meanwhile served rest => exact .ask meanwhile (hserved _ _ served) (hnext ▸ rest)
  | asked rest ih =>
    cases h with
    | ask meanwhile served hrest => exact .ask meanwhile served (ih hrest hq)

theorem Only.of_reaches {K : I.Request → Prop} {q : Program I α} (hp : p.Only K) (h : p.Reaches t q) :
    ∀ x ∈ t, K x.request := by
  induction h with
  | here p => exact fun x hx => nomatch hx
  | asked rest ih =>
    intro x hx
    rcases List.mem_cons.1 hx with rfl | hx
    · exact hp.1
    · exact ih (hp.2 _) x hx

variable {K : I.Request → Prop}

theorem EndsAfter.logged {R : E.State → Transcript I → E.State → Prop} (nil : ∀ σ, R σ [] σ)
    (cons : ∀ {r a t σ τ υ ω}, K r → E.Meanwhile r σ τ → E.Served r a τ υ → R υ t ω → R σ (⟨r, a⟩ :: t) ω)
    (hp : p.Only K) (h : p.EndsAfter E σ t a τ) : R σ t τ := by
  induction h with
  | done a σ => exact nil σ
  | ask meanwhile served rest ih => exact cons hp.1 meanwhile served (ih (hp.2 _))

theorem EndsAfter.carried {R : E.State → E.State → Prop} (refl : ∀ σ, R σ σ)
    (trans : ∀ {σ τ υ}, R σ τ → R τ υ → R σ υ)
    (step : ∀ {r a σ τ υ}, K r → E.Meanwhile r σ τ → E.Served r a τ υ → R σ υ) (hp : p.Only K)
    (h : p.EndsAfter E σ t a τ) : R σ τ :=
  h.logged (R := fun σ _ τ => R σ τ) refl (fun hr hmeanwhile hserved => trans (step hr hmeanwhile hserved)) hp

theorem EndsAfter.loosen {F : Surroundings I} (view : E.State → F.State)
    (meanwhile : ∀ {r σ τ}, E.Meanwhile r σ τ → F.Meanwhile r (view σ) (view τ))
    (served : ∀ {r a σ τ}, E.Served r a σ τ → F.Served r a (view σ) (view τ)) (h : p.EndsAfter E σ t a τ) :
    p.EndsAfter F (view σ) t a (view τ) := by
  induction h with
  | done a σ => exact .done a (view σ)
  | ask hmeanwhile hserved rest ih => exact .ask (meanwhile hmeanwhile) (served hserved) ih

theorem exists_endsAfter_such {P : Exchange I → Prop}
    (serves : ∀ r σ, K r → ∃ a τ υ, E.Meanwhile r σ τ ∧ E.Served r a τ υ ∧ P ⟨r, a⟩) (hp : p.Only K)
    (σ : E.State) : ∃ t a τ, p.EndsAfter E σ t a τ ∧ ∀ x ∈ t, P x := by
  induction p generalizing σ with
  | done a => exact ⟨[], a, σ, .done a σ, fun x hx => nomatch hx⟩
  | ask r next ih =>
    obtain ⟨a, υ, ω, hmeanwhile, hserved, hP⟩ := serves r σ hp.1
    obtain ⟨t, b, τ, hrest, ht⟩ := ih a (hp.2 a) ω
    refine ⟨⟨r, a⟩ :: t, b, τ, .ask hmeanwhile hserved hrest, fun x hx => ?_⟩
    rcases List.mem_cons.1 hx with rfl | hx
    · exact hP
    · exact ht x hx

theorem Upholds.exists_endsAfter {E : Surroundings I} {Q : α → E.State → Prop} {P : Exchange I → Prop}
    {σ : E.State} (quiet : ∀ r σ, E.Meanwhile r σ σ)
    (serves : ∀ r σ, E.Allows r σ → ∃ a τ, E.Served r a σ τ ∧ P ⟨r, a⟩) (h : p.Upholds E Q σ) :
    ∃ t a τ, p.EndsAfter E σ t a τ ∧ Q a τ ∧ ∀ x ∈ t, P x := by
  induction p generalizing σ with
  | done a => exact ⟨[], a, σ, .done a σ, h, fun x hx => nomatch hx⟩
  | ask r next ih =>
    obtain ⟨hallows, hnext⟩ := h σ (quiet r σ)
    obtain ⟨a, υ, hserved, hP⟩ := serves r σ hallows
    obtain ⟨t, b, τ, hends, hQ, ht⟩ := ih a (hnext a υ hserved)
    refine ⟨⟨r, a⟩ :: t, b, τ, .ask (quiet r σ) hserved hends, hQ, fun x hx => ?_⟩
    rcases List.mem_cons.1 hx with rfl | hx
    · exact hP
    · exact ht x hx

end Program

namespace Agent

open Program
open Repository (key)

variable {α : Type} {p : Activity α}

/-- What the tasks share while one of them goes on, and what the others had made of it when that one last
went on after a wait. -/
@[ext]
structure Passage where
  shared : Shared
  left : Shared

/-- A task among others: they may do anything while it waits, and nothing while it does not. -/
abbrev among : Surroundings interface where
  State := Passage
  Allows _ _ := True
  Meanwhile r σ τ := if r.isWait then τ.left = τ.shared else τ = σ
  Served r a σ τ := Agent.Served r a σ.shared τ.shared ∧ τ.left = σ.left

theorem meanwhile_wait {r : Request} (hwait : r.isWait = true) {σ τ : Passage} :
    among.Meanwhile r σ τ ↔ τ.left = τ.shared := by
  show (if r.isWait = true then _ else _) ↔ _
  rw [if_pos hwait]

theorem meanwhile_busy {r : Request} (hbusy : r.isWait = false) {σ τ : Passage} :
    among.Meanwhile r σ τ ↔ τ = σ := by
  show (if r.isWait = true then _ else _) ↔ _
  rw [hbusy, if_neg Bool.false_ne_true]

theorem endsAfter_request {r : Request} {a : r.Answer} {t : Transcript interface} {σ τ : Passage} :
    (ask r).EndsAfter among σ t a τ ↔ t = [⟨r, a⟩] ∧ ∃ υ, among.Meanwhile r σ υ ∧ among.Served r a υ τ := by
  constructor
  · intro h
    obtain ⟨x, u, υ, ω, rfl, hmeanwhile, hserved, hrest⟩ := endsAfter_ask.1 h
    obtain ⟨rfl, rfl, rfl⟩ := endsAfter_done.1 hrest
    exact ⟨rfl, υ, hmeanwhile, hserved⟩
  · rintro ⟨rfl, υ, hmeanwhile, hserved⟩
    exact .ask hmeanwhile hserved (EndsAfter.done (E := among) a τ)

theorem endsAfter_busy {r : Request} {a : r.Answer} {t : Transcript interface} {σ τ : Passage}
    (hbusy : r.isWait = false) (h : (ask r).EndsAfter among σ t a τ) :
    t = [⟨r, a⟩] ∧ Served r a σ.shared τ.shared ∧ τ.left = σ.left := by
  obtain ⟨ht, υ, hmeanwhile, hserved⟩ := endsAfter_request.1 h
  obtain rfl := (meanwhile_busy hbusy).1 hmeanwhile
  exact ⟨ht, hserved⟩

theorem endsAfter_notify {n : Notice} {t : Transcript interface} {σ τ : Passage}
    (h : (notify n).EndsAfter among σ t () τ) : t = [⟨.notify n, ()⟩] ∧ τ = σ := by
  obtain ⟨ht, hshared, hleft⟩ := endsAfter_busy rfl h
  exact ⟨ht, Passage.ext hshared hleft⟩

/-- If nobody disturbs it, the program may come to an end after these requests and answers. -/
def EndsAlone (p : Activity α) (σ : Shared) (t : Transcript interface) (a : α) (τ : Shared) : Prop :=
  ∀ left, ∃ left', p.EndsAfter among ⟨σ, left⟩ t a ⟨τ, left'⟩

theorem EndsAlone.done (a : α) (σ : Shared) : EndsAlone (.done a) σ [] a σ :=
  fun left => ⟨left, EndsAfter.done (E := among) a _⟩

theorem EndsAlone.ask {r : Request} {next : r.Answer → Activity α} {a : r.Answer} {t : Transcript interface}
    {b : α} {σ τ υ : Shared} (served : Served r a σ τ) (rest : EndsAlone (next a) τ t b υ) :
    EndsAlone (.ask r next) σ (⟨r, a⟩ :: t) b υ := by
  intro left
  cases hwait : r.isWait with
  | true =>
    obtain ⟨left', hrest⟩ := rest σ
    have hboth : among.Served r a ⟨σ, σ⟩ ⟨τ, σ⟩ := ⟨served, rfl⟩
    exact ⟨left', .ask ((meanwhile_wait hwait).2 rfl) hboth hrest⟩
  | false =>
    obtain ⟨left', hrest⟩ := rest left
    have hboth : among.Served r a ⟨σ, left⟩ ⟨τ, left⟩ := ⟨served, rfl⟩
    exact ⟨left', .ask ((meanwhile_busy hwait).2 rfl) hboth hrest⟩

def Request.Answerable (r : Request) : Prop :=
  ∀ f, r ≠ .abort f

theorem exists_served {r : Request} (hr : r.Answerable) (σ : Shared) : ∃ a τ, Served r a σ τ := by
  cases r with
  | store q =>
    cases q with
    | call c => exact ⟨.ok (σ.store.perform c).1, _, .inr ⟨.inl rfl, rfl⟩⟩
    | clock => exact ⟨0, σ, rfl⟩
  | chain c => exact ⟨.error (.rpc "down"), σ, rfl⟩
  | memory q => exact ⟨_, _, rfl, rfl⟩
  | notify n => exact ⟨(), σ, rfl⟩
  | abort f => exact absurd rfl (hr f)
  | entropy => exact ⟨.zero 32, σ, rfl⟩
  | deliver handler event mode => exact ⟨.ok (), σ, rfl⟩
  | clock => exact ⟨0, σ, rfl⟩
  | isCancelled => exact ⟨false, σ, rfl⟩
  | cancel => exact ⟨(), σ, rfl⟩
  | spawn routine => exact ⟨0, σ, rfl⟩
  | sleep ms => exact ⟨(), σ, rfl⟩
  | pauseUntil time => exact ⟨.due, σ, rfl⟩
  | nextReveal => exact ⟨none, σ, .inl ⟨rfl, rfl⟩⟩
  | receipt tx poll timeout => exact ⟨none, σ, rfl⟩
  | logs window initial limit => exact ⟨none, σ, rfl⟩
  | join task => exact ⟨(), σ, rfl⟩

/-- A program that never gives up comes to an end. -/
theorem exists_endsAfter (hp : p.Only Request.Answerable) (σ : Passage) : ∃ t a τ, p.EndsAfter among σ t a τ := by
  have hserves (r : Request) (σ : Passage) (hr : r.Answerable) :
      ∃ a τ υ, among.Meanwhile r σ τ ∧ among.Served r a τ υ ∧ True := by
    obtain ⟨τ, hτ⟩ : ∃ τ, among.Meanwhile r σ τ := by
      cases hwait : Request.isWait r with
      | true => exact ⟨⟨σ.shared, σ.shared⟩, (meanwhile_wait hwait).2 rfl⟩
      | false => exact ⟨σ, (meanwhile_busy hwait).2 rfl⟩
    obtain ⟨a, υ, hserved⟩ := exists_served hr τ.shared
    exact ⟨a, τ, ⟨υ, τ.left⟩, hτ, ⟨hserved, rfl⟩, trivial⟩
  obtain ⟨t, a, τ, hends, -⟩ := exists_endsAfter_such (E := among) (P := fun _ => True) hserves hp σ
  exact ⟨t, a, τ, hends⟩

theorem Request.Touching.busy {h : Hash} {r : Request} (hr : r.Touching h) : r.isWait = false := by
  cases hr <;> rfl

theorem Request.Touching.get?_eq {h : Hash} {r : Request} {a : r.Answer} {σ τ : Shared} (hr : r.Touching h)
    (hserved : Served r a σ τ) {k : Bytes} (hk : ∀ field, k ≠ key field h) :
    τ.store.get? k = σ.store.get? k := by
  rcases hserved.store with hsame | ⟨c, rfl, hstore⟩
  · rw [hsame]
  · rw [hstore]
    cases hr with
    | keeps keeping =>
      cases keeping with
      | reads reading =>
        cases c with
        | get k' => rw [Store.Backend.perform_get]
        | _ => exact reading.elim
      | stores given => rw [Store.Backend.get?_set, if_neg (hk .seed)]
      | @writes field value other => rw [Store.Backend.get?_set, if_neg (hk field)]
      | unmarks => rw [Store.Backend.get?_delete, if_neg (hk .pending)]

end Agent

end CommitReveal
