import CommitReveal.Program
import CommitReveal.Store.Error

/-! What may be asked of a key-value store. A write is visible to every later call; a scan lists the
entries whose key begins with the given bytes, in key order. -/
namespace CommitReveal.Store

abbrev Entry := Bytes × Bytes

inductive Call where
  | get (key : Bytes)
  | set (key value : Bytes)
  | delete (key : Bytes)
  | scan (start : Bytes)
deriving DecidableEq, Repr

/-- What a call gives when it succeeds. -/
abbrev Call.Result : Call → Type
  | .get _ => Option Bytes
  | .set _ _ => Unit
  | .delete _ => Unit
  | .scan _ => List Entry

end CommitReveal.Store
