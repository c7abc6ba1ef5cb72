import CommitReveal.Proofs.Obligation

/-! What a program has asked and been answered, whatever the answers were, and how an obligation that
is met in surroundings that only take notes holds of every such transcript. -/
namespace CommitReveal

structure Exchange (I : Interface) where
  request : I.Request
  answer : I.Answer request

/-- Requests and their answers, the oldest first. -/
abbrev Transcript (I : Interface) := List (Exchange I)

namespace Program

variable {I : Interface} {α β ε : Type} {p q : Program I α} {t u : Transcript I}

/-- After these requests and answers the program stands at another one. -/
inductive Reaches : Program I α → Transcript I → Program I α → Prop
  | here (p : Program I α) : Reaches p [] p
  | asked {r : I.Request} {next : I.Answer r → Program I α} {a : I.Answer r} {t : Transcript I}
    {q : Program I α} (rest : Reaches (next a) t q) : Reaches (ask r next) (⟨r, a⟩ :: t) q

theorem Reaches.of_bind {f : α → Program I β} {b : β} (h : (p.bind f).Reaches t (done b)) :
    ∃ t₁ t₂ a, t = t₁ ++ t₂ ∧ p.Reaches t₁ (done a) ∧ (f a).Reaches t₂ (done b) := by
  induction p generalizing t with
  | done a => exact ⟨[], t, a, rfl, .here _, h⟩
  | ask r next ih =>
    cases h with
    | asked rest =>
      obtain ⟨t₁, t₂, a, rfl, hp, hf⟩ := ih _ rest
      exact ⟨_ :: t₁, t₂, a, rfl, .asked hp, hf⟩

theorem Reaches.trans {p' : Program I α} (h : p.Reaches t p') (h' : p'.Reaches u q) : p.Reaches (t ++ u) q := by
  induction h with
  | here p => exact h'
  | asked _ ih => exact .asked (ih h')

theorem exists_end {G : Exchange I → Prop}
    (h : ∀ t r next, p.Reaches t (ask r next) → (∀ x ∈ t, G x) → ∃ a, G ⟨r, a⟩) :
    ∃ t a, p.Reaches t (done a) ∧ ∀ x ∈ t, G x := by
  induction p with
  | done a => exact ⟨[], a, .here _, fun x hx => nomatch hx⟩
  | ask r next ih =>
    obtain ⟨a, ha⟩ := h [] r next (.here _) fun x hx => nomatch hx
    have hgood {t} (ht : ∀ x ∈ t, G x) : ∀ x ∈ ⟨r, a⟩ :: t, G x := List.forall_mem_cons.2 ⟨ha, ht⟩
    obtain ⟨t, b, hreach, ht⟩ := ih a fun t r' next' hreach ht => h _ r' next' (.asked hreach) (hgood ht)
    exact ⟨_, b, .asked hreach, hgood ht⟩

/-- Every request is of a kind, whatever was answered before it. -/
def Only (K : I.Request → Prop) : Program I α → Prop
  | done _ => True
  | ask r next => K r ∧ ∀ a, Only K (next a)

theorem Only.imp {K K' : I.Request → Prop} (hp : p.Only K) (h : ∀ r, K r → K' r) : p.Only K' := by
  induction p with
  | done a => trivial
  | ask r next ih => exact ⟨h r hp.1, fun a => ih a (hp.2 a)⟩

theorem Only.bind {K : I.Request → Prop} {f : α → Program I β} (hp : p.Only K)
    (hf : ∀ a, (f a).Only K) : (p.bind f).Only K := by
  induction p with
  | done a => exact hf a
  | ask r next ih => exact ⟨hp.1, fun a => ih a (hp.2 a)⟩

theorem Only.attempt {K : I.Request → Prop} {x : ExceptT ε (Program I) α}
    {f : α → ExceptT ε (Program I) β} (hx : x.run.Only K) (hf : ∀ a, (f a).run.Only K) :
    (x >>= f).run.Only K := by
  refine hx.bind fun o => ?_
  cases o with
  | ok a => exact hf a
  | error e => trivial

theorem Only.lift {K : I.Request → Prop} (hp : p.Only K) :
    (liftM p : ExceptT ε (Program I) α).run.Only K :=
  hp.bind fun _ => trivial

theorem Only.interpret {J : Interface} {K : J.Request → Prop} {f : (r : I.Request) → Program J (I.Answer r)}
    (hp : p.Only fun r => (f r).Only K) : (p.interpret f).Only K := by
  induction p with
  | done a => trivial
  | ask r next ih => exact hp.1.bind fun a => ih a (hp.2 a)

/-- Surroundings that only take notes. What may be asked depends on the notes so far. -/
abbrev watched (P : I.Request → Transcript I → Prop) : Surroundings I where
  State := Transcript I
  Allows := P
  Meanwhile _ t u := u = t
  Served r a t u := u = t ++ [⟨r, a⟩]

variable {P : I.Request → Transcript I → Prop} {Q : α → Transcript I → Prop}

theorem upholds_watched {r : I.Request} {next : I.Answer r → Program I α} :
    (ask r next).Upholds (watched P) Q t ↔
      P r t ∧ ∀ a, (next a).Upholds (watched P) Q (t ++ [⟨r, a⟩]) := by
  rw [upholds_ask]
  constructor
  · intro h
    obtain ⟨hallows, hnext⟩ := h t rfl
    exact ⟨hallows, fun a => hnext a _ rfl⟩
  · rintro ⟨hallows, hnext⟩ τ rfl
    refine ⟨hallows, fun a υ hυ => ?_⟩
    rw [hυ]
    exact hnext a

theorem upholds_noted {r : I.Request} (hr : P r t) :
    (request r).Upholds (watched P) (fun a u => u = t ++ [⟨r, a⟩]) t :=
  upholds_watched.2 ⟨hr, fun _ => rfl⟩

/-- What is owed at the beginning is owed wherever the program comes to. -/
theorem Upholds.reached (h : p.Upholds (watched P) Q t) (hreach : p.Reaches u q) :
    q.Upholds (watched P) Q (t ++ u) := by
  induction hreach generalizing t with
  | here p =>
    rw [List.append_nil]
    exact h
  | @asked r next a u q rest ih =>
    have hnext := (upholds_watched.1 h).2 a
    rw [List.append_cons]
    exact ih hnext

theorem Only.upholds {K : I.Request → Prop} (hp : p.Only K) (hK : ∀ r t, K r → P r t) :
    p.Upholds (watched P) (fun a u => ∃ v, u = t ++ v ∧ p.Reaches v (done a) ∧
      ∀ x ∈ v, K x.request) t := by
  induction p generalizing t with
  | done a => exact ⟨[], (List.append_nil t).symm, .here _, fun x hx => nomatch hx⟩
  | ask r next ih =>
    refine upholds_watched.2 ⟨hK r t hp.1, fun a => ?_⟩
    refine (ih a (hp.2 a)).imp fun b u hu => ?_
    obtain ⟨v, rfl, hreach, hall⟩ := hu
    refine ⟨⟨r, a⟩ :: v, by simp, .asked hreach, fun x hx => ?_⟩
    rcases List.mem_cons.1 hx with rfl | hx
    · exact hp.1
    · exact hall x hx

end Program

end CommitReveal
