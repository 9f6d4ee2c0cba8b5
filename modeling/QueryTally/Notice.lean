import QueryTally.Hour
import QueryTally.Failure

/-! # Notices

What the library has to say while it works. A notice is a fact; its level and its
wording are functions of it. -/

namespace QueryTally

inductive Level where
  | trace
  | debug
  | info
  | warn
  | error
  deriving DecidableEq, Repr

namespace Level

def weight : Level → Nat
  | trace => 0
  | debug => 1
  | info => 2
  | warn => 3
  | error => 4

def name : Level → String
  | trace => "TRACE"
  | debug => "DEBUG"
  | info => "INFO"
  | warn => "WARN"
  | error => "ERROR"

end Level

inductive Notice where
  | storeOpened (name : String)
  | storeReset
  | storeClosed
  | beginWhileClosed
  | beginRefused
  | begun (writable : Bool)
  | committed
  | rollbackFailed
  | rollbackOnDropFailed
  | malformedKey (length : Nat)
  | openFailed (name : String) (e : StoreError)
  | purging
  | listFailed (e : StoreError)
  | deleted (hour : Hour)
  | deleteFailed (hour : Hour) (e : StoreError)
  | loadFailed (hour : Hour) (e : StoreError)
  | commitFailed (e : StoreError)
  | resuming (hour : Hour) (total : UInt64)
  | initialized
  | outsideWindow (live first last : Hour)
  | windowMismatch (actual : Nat) (expected : UInt32)
  | limitSet (days : Int32)
  | intervalTooLarge (days : Int32)
  | clearIgnored
  | unavailableAfterClear (e : StoreError)
  | cleared
  | notFlushed (hour : Hour)
  | flushing (hour : Hour)
  | flushFailed (hour : Hour) (e : StoreError)
  | closed
  | rotationDisabled
  | rotationWithoutInterval
  | rotationStarted (millis : UInt64)
  | rotated
  | rotationFailed (o : Overflow)
  | rotationStopped
  deriving DecidableEq, Repr

namespace Notice

def level : Notice → Level
  | storeClosed | beginWhileClosed | begun _ | committed | purging | flushing _ => .trace
  | storeOpened _ | storeReset | deleted _ | resuming .. | initialized | outsideWindow ..
  | limitSet _ | clearIgnored | cleared | closed | rotationStarted _ | rotated
  | rotationStopped => .debug
  | rotationDisabled => .info
  | malformedKey _ | intervalTooLarge _ | unavailableAfterClear _ | notFlushed _ => .warn
  | beginRefused | rollbackFailed | rollbackOnDropFailed | openFailed .. | listFailed _
  | deleteFailed .. | loadFailed .. | commitFailed _ | windowMismatch .. | flushFailed ..
  | rotationWithoutInterval | rotationFailed _ => .error

def text : Notice → String
  | storeOpened name => s!"Stats: opened unit store {name}"
  | storeReset => "Stats: unit store reset"
  | storeClosed => "db.Close"
  | beginWhileClosed => "db.Begin: store is closed"
  | beginRefused => "db.Begin"
  | begun writable => s!"db.Begin (writable: {writable})"
  | committed => "tx.Commit"
  | rollbackFailed => "tx.Rollback"
  | rollbackOnDropFailed => "tx.Rollback on drop"
  | malformedKey length => s!"Stats: skipping malformed unit key ({length} bytes)"
  | openFailed name e => s!"Stats: open DB: {name}: {e.message}"
  | purging => "Stats: deleting old units"
  | listFailed e => s!"Stats: list units: {e.message}"
  | deleted hour => s!"Stats: deleted unit {hour}"
  | deleteFailed hour e => s!"Stats: delete unit {hour}: {e.message}"
  | loadFailed hour e => s!"Stats: load unit {hour}: {e.message}"
  | commitFailed e => s!"tx.Commit: {e.message}"
  | resuming hour total => s!"Stats: resuming unit {hour} ({total} queries)"
  | initialized => "Stats: initialized"
  | outsideWindow live first last =>
    s!"Stats: live unit {live} is outside window [{first}, {last}]"
  | windowMismatch actual expected =>
    s!"Stats: window has {actual} units, expected {expected}"
  | limitSet days => s!"Stats: set limit: {days}"
  | intervalTooLarge days => s!"Stats: ignoring interval of {days} days, too large"
  | clearIgnored => "Stats: clear after close ignored"
  | unavailableAfterClear e => s!"Stats: unit store unavailable after clear: {e.message}"
  | cleared => "Stats: cleared"
  | notFlushed hour => s!"Stats: unit {hour} was not flushed, store unavailable"
  | flushing hour => s!"Stats: flushing unit {hour}"
  | flushFailed hour e => s!"Stats: flush unit {hour}: {e.message}"
  | closed => "Stats: closed"
  | rotationDisabled => "Stats: rotation is disabled, skipping"
  | rotationWithoutInterval => "Stats: rotation poll interval is zero, not starting"
  | rotationStarted millis => s!"Stats: rotation started with {millis}ms poll interval"
  | rotated => "Stats: rotated to a new unit"
  | rotationFailed o => s!"Stats: rotation task failed: {o.message}"
  | rotationStopped => "Stats: rotation stopped"

end Notice
end QueryTally
