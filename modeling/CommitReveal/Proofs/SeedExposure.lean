import CommitReveal.Api.Router
import CommitReveal.Proofs.PendingReveals

/-! What the seed look-up gives away. Its answer depends on the store only through the seed of the hash
that the query spells, and on that it depends whatever the status of the hash is. -/
namespace CommitReveal.Agent

open Api (SeedAnswer)
open Repository (peek)

variable {s : Settings} {σ τ : System} {query : Bytes} {hash : Hash} {b b' : Store.Backend}

/-- How the look-up answers a query on a store that can be read. -/
def answerTo (query : Bytes) (b : Store.Backend) : Api.Response :=
  (Repository.runOn 0 (Api.Route.seed.respond query) b).1.1

/-- The query asks for a hash, and spells it right. -/
def Spells (query : Bytes) (hash : Hash) : Prop :=
  ∃ text, Api.hashText query = .ok text ∧ Api.hashOfText? text = some hash

def told : Except Store.StoreError (Option Seed) → SeedAnswer
  | .ok (some seed) => .found seed
  | _ => .notFound

def reply (a : SeedAnswer) : Api.Response :=
  ⟨200, some "application/json", none, a.body⟩

theorem answerTo_spelled (hspells : Spells query hash) :
    answerTo query b = reply (told (peek (Repository.seed hash) b)) := by
  obtain ⟨text, htext, hhash⟩ := hspells
  unfold answerTo Api.Route.respond Api.lookUp peek
  simp only [htext, hhash, Repository.runOn, Program.bind_eq, Program.run_bind]
  cases (Program.run (Repository.answer 0) (Repository.seed hash).run b).1 with
  | error e => rfl
  | ok found => cases found <;> rfl

theorem answerTo_unspelled (hspells : ∀ hash, ¬Spells query hash) :
    answerTo query b = answerTo query b' := by
  unfold answerTo Api.Route.respond
  dsimp only
  cases htext : Api.hashText query with
  | error e => rfl
  | ok text =>
    have hnone : Api.hashOfText? text = none := by
      rw [Option.eq_none_iff_forall_ne_some]
      intro hash hhash
      exact hspells hash ⟨text, htext, hhash⟩
    unfold Api.lookUp
    dsimp only
    rw [hnone]
    rfl

theorem found_body_inj {seed seed' : Seed}
    (h : (SeedAnswer.found seed).body = (SeedAnswer.found seed').body) : seed = seed' := by
  have hdigits : Hex.digits seed.bytes = Hex.digits seed'.bytes := by
    simpa [SeedAnswer.body, SeedAnswer.data?, SeedAnswer.code, SeedAnswer.message, Hex.encode]
      using congrArg String.toList h
  have hbytes := congrArg Hex.decode hdigits
  rw [Hex.decode_digits, Hex.decode_digits] at hbytes
  exact FixedBytes.ext (Option.some.inj hbytes)

theorem found_body_ne {seed : Seed} : (SeedAnswer.found seed).body ≠ SeedAnswer.notFound.body := by
  intro h
  have htext := congrArg String.toList h
  simp [SeedAnswer.body, SeedAnswer.code] at htext

theorem told_inj {found found' : Option Seed} (h : reply (told (.ok found)) = reply (told (.ok found'))) :
    found = found' := by
  have hbody : (told (.ok found)).body = (told (.ok found')).body := congrArg Api.Response.body h
  cases found with
  | none =>
    cases found' with
    | none => rfl
    | some seed' => exact absurd hbody.symm found_body_ne
  | some seed =>
    cases found' with
    | none => exact absurd hbody found_body_ne
    | some seed' => exact congrArg some (found_body_inj hbody)

theorem exists_peek_of_reachable (hr : System.Reachable s σ) (hash : Hash) :
    ∃ found, peek (Repository.seed hash) σ.shared.store = .ok found := by
  have hord : Orderly s σ.shared := orderly_of_reachable hr
  cases hget : σ.shared.store.get? (Repository.key .seed hash) with
  | none => exact ⟨none, Repository.peek_seed_none hget⟩
  | some bytes =>
    obtain ⟨seed, rfl, -⟩ := hord.ledger.seed hash bytes hget
    exact ⟨some seed, Repository.peek_seed hget⟩

/-- Two states of the agent are answered for alike except to a query that spells a hash whose stored seeds
differ. -/
theorem seed_answer_eq_iff (hσ : System.Reachable s σ) (hτ : System.Reachable s τ) (query : Bytes) :
    (answerTo query σ.shared.store = answerTo query τ.shared.store ↔
      ∀ hash, Spells query hash →
        peek (Repository.seed hash) σ.shared.store = peek (Repository.seed hash) τ.shared.store) ∧
    ∀ hash seed, Spells query hash → peek (Repository.seed hash) σ.shared.store = .ok (some seed) →
      answerTo query σ.shared.store = reply (.found seed) := by
  refine ⟨⟨fun hsame hash hspells => ?_, fun hsame => ?_⟩, fun hash seed hspells hseed => ?_⟩
  · obtain ⟨found, hfound⟩ := exists_peek_of_reachable hσ hash
    obtain ⟨found', hfound'⟩ := exists_peek_of_reachable hτ hash
    rw [answerTo_spelled hspells, answerTo_spelled hspells, hfound, hfound'] at hsame
    rw [hfound, hfound', told_inj hsame]
  · by_cases hspells : ∃ hash, Spells query hash
    · obtain ⟨hash, hspells⟩ := hspells
      rw [answerTo_spelled hspells, answerTo_spelled hspells, hsame hash hspells]
    · exact answerTo_unspelled fun hash h => hspells ⟨hash, h⟩
  · rw [answerTo_spelled hspells, hseed]
    rfl

def askFor (hash : Hash) : Bytes :=
  Bytes.ofText ("hash=" ++ Hex.encode hash.bytes)

theorem spells_askFor : Spells (askFor (.fill 32 3)) (.fill 32 3) :=
  ⟨Hex.encode (FixedBytes.fill 32 3).bytes, rfl, rfl⟩

theorem exists_firstCommit (n : Nat) : ∃ σ : System, System.Reachable usual σ ∧
    σ.shared = (firstCommit (.ok (.fill 32 4)) n).1 := by
  obtain ⟨holder, -, hr⟩ := reachable_firstCommit (.ok (.fill 32 4)) n
  exact ⟨_, hr, rfl⟩

theorem seed_answer_eq_iff_firstCommit : ∃ σ τ : System, System.Reachable usual σ ∧
    System.Reachable usual τ ∧ peek (Repository.isPending (.fill 32 3)) τ.shared.store = .ok true ∧
    answerTo (askFor (.fill 32 3)) σ.shared.store ≠ answerTo (askFor (.fill 32 3)) τ.shared.store ∧
    ∃ seed, answerTo (askFor (.fill 32 3)) τ.shared.store = reply (.found seed) := by
  obtain ⟨σ, hσ, hbefore⟩ := exists_firstCommit 4
  obtain ⟨τ, hτ, hafter⟩ := exists_firstCommit 12
  have hnone : peek (Repository.seed (.fill 32 3)) σ.shared.store = .ok none := by
    rw [hbefore]
    rfl
  have hpending : peek (Repository.isPending (.fill 32 3)) τ.shared.store = .ok true := by
    rw [hafter]
    rfl
  have hseed : peek (Repository.seed (.fill 32 3)) τ.shared.store =
      .ok (some (seedOf usual.agent (.zero 32))) := by
    apply Repository.peek_seed
    rw [hafter]
    rfl
  refine ⟨σ, τ, hσ, hτ, hpending, fun hsame => ?_, _,
    (seed_answer_eq_iff hτ hσ _).2 _ _ spells_askFor hseed⟩
  have hfound := (seed_answer_eq_iff hσ hτ _).1.1 hsame _ spells_askFor
  rw [hnone, hseed] at hfound
  cases hfound

section Storing

variable {h : Hash} {value key : Bytes}

theorem get?_set_seed (hkey : ∀ hash, key ≠ Repository.key .seed hash) :
    b.get? key = (b.perform (.set (Repository.key .seed h) value)).2.get? key := by
  rw [Store.Backend.get?_set, if_neg (hkey h)]

theorem peek_status_set_seed : peek (Repository.status hash) b =
    peek (Repository.status hash) (b.perform (.set (Repository.key .seed h) value)).2 := by
  apply Repository.peek_status_congr
  exact get?_set_seed (Repository.key_ne (by decide) hash)

theorem peek_isPending_set_seed : peek (Repository.isPending hash) b =
    peek (Repository.isPending hash) (b.perform (.set (Repository.key .seed h) value)).2 := by
  rw [Repository.peek_isPending, Repository.peek_isPending]
  rw [get?_set_seed (Repository.key_ne (by decide) hash)]

end Storing

/-- The look-up tells apart states that agree on all but the seeds of hashes that are not revealed. -/
theorem unrevealed_seed_told :
    (∃ σ τ : System, System.Reachable usual σ ∧ System.Reachable usual τ ∧
      (∀ hash, peek (Repository.status hash) σ.shared.store =
        peek (Repository.status hash) τ.shared.store) ∧
      (∀ hash, peek (Repository.isPending hash) σ.shared.store =
        peek (Repository.isPending hash) τ.shared.store) ∧
      (∀ hash, peek (Repository.status hash) σ.shared.store = .ok (some .revealed) →
        peek (Repository.seed hash) σ.shared.store = peek (Repository.seed hash) τ.shared.store) ∧
      (∀ key, (∀ hash, key ≠ Repository.key .seed hash) →
        σ.shared.store.get? key = τ.shared.store.get? key) ∧
      ∃ query, answerTo query σ.shared.store ≠ answerTo query τ.shared.store) ∧
    ∃ (σ : System) (query : Bytes) (hash : Hash) (seed : Seed), System.Reachable usual σ ∧
      peek (Repository.status hash) σ.shared.store = .ok (some .created) ∧
      peek (Repository.seed hash) σ.shared.store = .ok (some seed) ∧
      answerTo query σ.shared.store = reply (.found seed) := by
  constructor
  -- the seventh answer is that of the call that stores the seed
  · obtain ⟨σ, hσ, hbefore⟩ := exists_firstCommit 6
    obtain ⟨τ, hτ, hafter⟩ := exists_firstCommit 7
    have hempty : σ.shared.store = .memory .empty := by
      rw [hbefore]
      rfl
    have hstored : τ.shared.store = (σ.shared.store.perform (.set (Repository.key .seed (.fill 32 3))
        (seedOf usual.agent (.zero 32)).bytes)).2 := by
      rw [hempty, hafter]
      rfl
    have hothers : ∀ key, (∀ hash, key ≠ Repository.key .seed hash) →
        σ.shared.store.get? key = τ.shared.store.get? key := by
      rw [hstored]
      exact fun key => get?_set_seed
    refine ⟨σ, τ, hσ, hτ, fun hash => ?_, fun hash => ?_, fun hash hrevealed => ?_, hothers, ?_⟩
    · rw [hstored]
      exact peek_status_set_seed
    · rw [hstored]
      exact peek_isPending_set_seed
    · have hnone : peek (Repository.status hash) σ.shared.store = .ok none := by
        rw [hempty]
        rfl
      rw [hnone] at hrevealed
      cases hrevealed
    · refine ⟨askFor (.fill 32 3), fun hsame => ?_⟩
      have hnone : peek (Repository.seed (.fill 32 3)) σ.shared.store = .ok none := by
        rw [hempty]
        rfl
      have hsome : peek (Repository.seed (.fill 32 3)) τ.shared.store =
          .ok (some (seedOf usual.agent (.zero 32))) := by
        apply Repository.peek_seed
        rw [hstored, Repository.get?_set_key, if_pos ⟨rfl, rfl⟩]
      rw [answerTo_spelled spells_askFor, answerTo_spelled spells_askFor, hnone, hsome] at hsame
      exact absurd (told_inj hsame) (Option.some_ne_none _).symm
  · obtain ⟨σ, hσ, hstate⟩ := exists_firstCommit 10
    have hcreated : peek (Repository.status (.fill 32 3)) σ.shared.store = .ok (some .created) := by
      rw [hstate]
      rfl
    have hseed : peek (Repository.seed (.fill 32 3)) σ.shared.store =
        .ok (some (seedOf usual.agent (.zero 32))) := by
      apply Repository.peek_seed
      rw [hstate]
      rfl
    refine ⟨σ, askFor (.fill 32 3), .fill 32 3, _, hσ, hcreated, hseed, ?_⟩
    rw [answerTo_spelled spells_askFor, hseed]
    rfl

end CommitReveal.Agent
