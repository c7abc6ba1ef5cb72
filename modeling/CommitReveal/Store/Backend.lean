import CommitReveal.Store.OrderedMap
import CommitReveal.Store.Table

/-! The two kinds of store, and what each call does to either. -/
namespace CommitReveal.Store

inductive Backend where
  | memory (map : OrderedMap)
  | database (table : Table)

namespace Backend

def perform : (c : Call) → Backend → c.Result × Backend
  | .get key, .memory m => (m.get? key, .memory m)
  | .set key value, .memory m => ((), .memory (m.insert key value))
  | .delete key, .memory m => ((), .memory (m.erase key))
  | .scan start, .memory m => (m.scan start, .memory m)
  | .get key, .database t => (t.get? key, .database t)
  | .set key value, .database t => ((), .database (t.upsert key value))
  | .delete key, .database t => ((), .database (t.delete key))
  | .scan start, .database t => (t.scan start, .database t)

/-- Every entry, in key order. -/
def entries (b : Backend) : List Entry :=
  (b.perform (.scan [])).1

end Backend

end CommitReveal.Store
