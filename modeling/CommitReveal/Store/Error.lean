import CommitReveal.Bytes

/-! Why a store call, or reading what a store holds, can fail. -/
namespace CommitReveal.Store

/-- Why the bytes of a commitment record cannot be read. -/
inductive RecordFault where
  | truncated
  /-- No status has this number. -/
  | statusTag (tag : Nat)
  /-- Neither absent (0) nor present (1). -/
  | optionTag (tag : Nat)
deriving DecidableEq, Repr

def RecordFault.message : RecordFault → String
  | .truncated => "io error: unexpected end of file"
  | .statusTag tag =>
    "invalid value: integer `" ++ toString tag ++ "`, expected variant index 0 <= i < 6"
  | .optionTag tag => s!"tag for enum is not valid, found {tag}"

/-- Why a stored value is not what it should be. -/
inductive Corruption where
  | hashLength (found : Nat)
  | cursorLength (found : Nat)
  /-- As told by the store itself. -/
  | reported (reason : String)
deriving DecidableEq, Repr

def Corruption.message : Corruption → String
  | .hashLength found => s!"expected 32 bytes, found {found}"
  | .cursorLength found => s!"cursor has {found} bytes"
  | .reported reason => reason

inductive StoreError where
  | database (reason : String)
  | record (fault : RecordFault)
  | io (reason : String)
  | corrupt (fault : Corruption)
  /-- A holder of the store's lock failed. -/
  | poisoned
deriving DecidableEq, Repr

def StoreError.message : StoreError → String
  | .database reason => "SQLite error: " ++ reason
  | .record fault => "Encoding error: " ++ fault.message
  | .io reason => "IO error: " ++ reason
  | .corrupt fault => "Corrupt entry: " ++ fault.message
  | .poisoned => "Store lock poisoned"

end CommitReveal.Store
