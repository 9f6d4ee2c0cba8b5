import QueryTally.Config
import QueryTally.LiveHour
import QueryTally.Report
import QueryTally.Store

/-! # The engine

The engine counts events in a live hour, keeps the records of earlier hours in a
store, and answers queries over the retention window from both. Each operation takes
the disk and, where it depends on the time, the present hour, and gives back the disk
as it leaves it, with notices of what happened. -/

namespace QueryTally

inductive Halt where
  | overflow (o : Overflow)
  | failure (e : StatsError)
  deriving DecidableEq, Repr

/-- The statistics of a resolver. -/
structure Engine where
  /-- The number of hours that are retained. -/
  limit : UInt32
  store : Store
  /-- The hour that is being counted; nothing once the engine is closed. -/
  live : Option LiveHour
  /-- What the tasks that work for the engine are told: whether to stop. -/
  shutdown : Bool := false

namespace Engine

def isClosed (e : Engine) : Bool := e.live.isNone

def hour? (e : Engine) : Option Hour := e.live.map (·.hour)

def days (e : Engine) : UInt32 := e.limit / 24

def debugText (e : Engine) : String :=
  let unit := match e.hour? with
    | some hour => s!"Some({hour})"
    | none => "None"
  s!"StatsEngine \x7b limit_hours: {e.limit}, store: " ++ e.store.debugText ++
    s!", unit_id: {unit} \x7d"

end Engine
end QueryTally
