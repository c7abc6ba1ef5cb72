import CommitReveal.Store.Backend

/-! A store whose calls can be made to fail: after some that succeed, the next ones of a kind do. -/
namespace CommitReveal.Simulation

inductive StoreMethod where
  | get | set | delete | scan
deriving DecidableEq, Repr

def StoreMethod.name : StoreMethod → String
  | .get => "get"
  | .set => "set"
  | .delete => "delete"
  | .scan => "scan"

def StoreMethod.ofCall : Store.Call → StoreMethod
  | .get _ => .get
  | .set _ _ => .set
  | .delete _ => .delete
  | .scan _ => .scan

inductive StoreFailureKind where
  | corrupt | poisoned | io
deriving DecidableEq, Repr

def StoreFailureKind.error (kind : StoreFailureKind) (method : StoreMethod) : Store.StoreError :=
  match kind with
  | .corrupt => .corrupt (.reported (method.name ++ " broke"))
  | .poisoned => .poisoned
  | .io => .io "disk gone"

structure StoreFailure where
  method : StoreMethod
  /-- Calls that still succeed. -/
  skip : Nat
  /-- Calls that fail after those. -/
  count : Nat
  kind : StoreFailureKind
deriving DecidableEq, Repr

structure FallibleStore where
  backend : Store.Backend
  failures : List StoreFailure

namespace FallibleStore

/-- A new failure plan replaces the old one of its method. -/
def planFailure (s : FallibleStore) (f : StoreFailure) : FallibleStore :=
  { s with failures := f :: s.failures.filter fun g => g.method ≠ f.method }

/-- The planned failure of a call, if it is its turn. -/
def fail (s : FallibleStore) (method : StoreMethod) : Option Store.StoreError × FallibleStore :=
  match s.failures.find? fun f => f.method = method with
  | none => (none, s)
  | some f =>
    if 0 < f.skip then (none, s.planFailure { f with skip := f.skip - 1 })
    else if 0 < f.count then
      (some (f.kind.error method), s.planFailure { f with count := f.count - 1 })
    else (none, s)

def perform (c : Store.Call) (s : FallibleStore) : Except Store.StoreError c.Result × FallibleStore :=
  match s.fail (.ofCall c) with
  | (some error, s) => (.error error, s)
  | (none, s) =>
    let (result, backend) := s.backend.perform c
    (.ok result, { s with backend })

end FallibleStore

end CommitReveal.Simulation
