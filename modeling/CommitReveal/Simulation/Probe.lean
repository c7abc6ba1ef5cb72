import CommitReveal.Agent.Memory
import CommitReveal.Scan.Progress
import CommitReveal.Store.Backend

/-! Single parts tried out step by step, each on its own: an agent's memory, the progress of a scan,
and a store that can be closed and opened again. -/
namespace CommitReveal.Simulation.Probe

inductive NonceStep where
  | next (observed : Option Word)
  | release (nonce : Word)
  /-- The rule alone, on a cached value of its own. -/
  | assign (cached : Word) (observed : Option Word)
deriving DecidableEq, Repr

inductive NonceResult where
  | nonce (nonce : Word)
  | released
  | assigned (nonce cached : Word)
  | fault (f : Fault)
deriving DecidableEq, Repr

def NonceStep.take (c : NonceCache) : NonceStep → NonceResult × NonceCache
  | .next observed =>
    match c.take observed with
    | .ok (nonce, c) => (.nonce nonce, c)
    | .error f => (.fault f, c)
  | .release nonce =>
    match c.release nonce with
    | .ok c => (.released, c)
    | .error f => (.fault f, c)
  | .assign cached observed =>
    match assignNonce cached observed with
    | .ok (nonce, cached) => (.assigned nonce cached, c)
    | .error f => (.fault f, c)

/-- Takes the steps in turn; one that faults is the last. -/
def nonces : NonceCache → List NonceStep → List NonceResult
  | _, [] => []
  | c, step :: rest =>
    match step.take c with
    | (.fault f, _) => [.fault f]
    | (result, c) => result :: nonces c rest

/-- Puts hashes off, or hands those over that were put off: then the result is a list. -/
def deferrals : Agent.Memory → List (Option (List Hash)) → List (Option (List Hash))
  | _, [] => []
  | m, some hashes :: rest => none :: deferrals (Agent.Memory.perform (.defer hashes) m).2 rest
  | m, none :: rest =>
    let (hashes, m) := Agent.Memory.perform .takeDeferred m
    some hashes :: deferrals m rest

inductive ProgressStep where
  /-- A window, and more of its width that each follow the one before. -/
  | windows (first last : Word) (mode : ScanMode) (count : Nat)
  | dispatch (outcome : DispatchOutcome)
  | log (force : Bool)
deriving DecidableEq, Repr

/-- Records `count` windows of one width in a row; `notices` are those that came before. -/
def recordWindows (mode : ScanMode) (width : Word) (notices : List Notice) :
    (count : Nat) → Progress → (first last : Word) → Except Fault (Progress × List Notice)
  | 0, p, _, _ => .ok (p, notices)
  | count + 1, p, first, last =>
    match p.recordWindow ⟨first, last, mode⟩ with
    | .error f => .error f
    | .ok (p, more) =>
      if count = 0 then .ok (p, notices ++ more)
      else
        match Word.add? last 1 with
        | none => .error .overflow
        | some next =>
          match Word.add? next width with
          | none => .error .overflow
          | some following => recordWindows mode width (notices ++ more) count p next following

def ProgressStep.take (p : Progress) : ProgressStep → Except Fault (Progress × List Notice)
  | .windows first last mode count => recordWindows mode (last - first) [] count p first last
  | .dispatch outcome => .ok (p.recordDispatch outcome, [])
  | .log force => .ok (p.log force)

/-- The figures and the notices after each step. -/
def progress : Progress → List ProgressStep → Except Fault (List (ScanStats × List Notice))
  | _, [] => .ok []
  | p, step :: rest => do
    let (p, notices) ← step.take p
    return (p.stats, notices) :: (← progress p rest)

inductive StoreStep where
  | call (c : Store.Call)
  | has (key : Bytes)
  | reopen
deriving DecidableEq, Repr

inductive StoreResult where
  | nothing
  | value (v : Option Bytes)
  | flag (b : Bool)
  | entries (es : List Store.Entry)
deriving DecidableEq, Repr

def resultOf : (c : Store.Call) → c.Result → StoreResult
  | .get _, v => .value v
  | .set _ _, _ => .nothing
  | .delete _, _ => .nothing
  | .scan _, es => .entries es

/-- Takes the steps in turn. `opened` tells what opening the store again finds. -/
def store (opened : Store.Backend → Store.Backend) :
    Store.Backend → List StoreStep → List StoreResult
  | _, [] => []
  | b, .call c :: rest =>
    let (r, b) := b.perform c
    resultOf c r :: store opened b rest
  | b, .has key :: rest =>
    let (r, b) := b.perform (.get key)
    .flag (Option.isSome r) :: store opened b rest
  | b, .reopen :: rest => .flag true :: store opened (opened b) rest

end CommitReveal.Simulation.Probe
