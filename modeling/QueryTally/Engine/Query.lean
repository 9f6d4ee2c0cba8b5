import QueryTally.Engine

/-! # Counting and querying

Events raise the live hour. A query assembles the retention window from the stored
records and the live hour and reduces it to a report; it changes no record. -/

namespace QueryTally.Engine

/-- Counts an event. A closed engine ignores it. -/
def ingest (e : Engine) (event : Event) : Checked Engine :=
  match e.live with
  | none => .ok e
  | some live => do
    let live ← live.ingest event
    return { e with live := some live }

def ingestTimes (e : Engine) (event : Event) : Nat → Checked Engine
  | 0 => .ok e
  | n + 1 => do
    let e ← e.ingest event
    e.ingestTimes event n

/-- The report over a window of which these records were stored. -/
def reportOn (e : Engine) (g : Granularity) (first now : Hour) (stored : List HourRecord) :
    Except Halt Report × List Notice :=
  let live := e.live.map fun u => (u.hour, u.toRecord)
  let outside := match e.hour? with
    | some hour =>
      if Window.excludes first now stored hour then [.outsideWindow hour first now] else []
    | none => []
  match Window.assemble first now stored live with
  | .error o => (.error (.overflow o), outside)
  | .ok w =>
    if w.size ≠ e.limit.toNat then
      (.error (.failure (.windowMismatch e.limit.toNat w.size)),
        outside ++ [.windowMismatch w.size e.limit])
    else
      match Report.ofWindow w g with
      | .error o => (.error (.overflow o), outside)
      | .ok report => (.ok report, outside)

structure Answer where
  result : Except Halt Report
  disk : Disk
  notices : List Notice

def query (e : Engine) (g : Granularity) (now : Hour) (disk : Disk) : Answer :=
  match now.windowStart e.limit with
  | .error o => { result := .error (.overflow o), disk, notices := [] }
  | .ok first =>
    let loading := e.store.load disk first now
    let (result, notices) := e.reportOn g first now loading.records
    { result, disk := loading.disk, notices := loading.notices ++ notices }

/-- Sets the retention interval. A negative number of days is ignored, and so is one
whose hours do not fit a word. -/
def configure (e : Engine) (days : Int32) : Engine × List Notice :=
  if days < 0 then (e, [])
  else if days.toInt * 24 < UInt32.size then
    ({ e with limit := UInt32.ofNat (days.toInt.toNat * 24) }, [.limitSet days])
  else (e, [.intervalTooLarge days])

end QueryTally.Engine
