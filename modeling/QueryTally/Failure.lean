import QueryTally.HourRecord.Codec

/-! # Failures

What can go wrong apart from an overflow: in the store, or in the statistics that
use it. The words that the database or the operating system would add to a failure
of theirs are not part of the wording. -/

namespace QueryTally

inductive StoreError where
  /-- The database refused a statement or could not be opened. -/
  | database
  /-- A stored value is no record. -/
  | codec (e : DecodeError)
  /-- A file or directory could not be made or removed. -/
  | io
  /-- The store is closed. -/
  | unavailable
  /-- A write in a transaction that may only read. -/
  | readOnly
  deriving DecidableEq, Repr

def StoreError.message : StoreError → String
  | .database => "SQLite error"
  | .codec e => "Record codec error: " ++ e.message
  | .io => "IO error"
  | .unavailable => "Unit store is not open"
  | .readOnly => "Write in read-only transaction"

inductive StatsError where
  | storage (e : StoreError)
  /-- A retention interval that is not supported. -/
  | invalidInterval (days : UInt32)
  /-- Rotation is wanted, but its poll interval is zero. -/
  | invalidPollInterval
  /-- Rotation is wanted where no task can run. -/
  | noRuntime
  /-- A window that does not have one record for each retained hour. -/
  | windowMismatch (expected actual : Nat)
  deriving DecidableEq, Repr

namespace StatsError

def message : StatsError → String
  | .storage e => "Storage error: " ++ e.message
  | .invalidInterval days => s!"Unsupported interval: {days} days"
  | .invalidPollInterval => "Rotation poll interval must be non-zero"
  | .noRuntime => "Rotation requires a running tokio runtime"
  | .windowMismatch expected actual =>
    s!"Aggregated window has {actual} units, expected {expected}"

def source? : StatsError → Option StoreError
  | .storage e => some e
  | _ => none

end StatsError
end QueryTally
