import QueryTally.Granularity
import QueryTally.Window

/-! # Reports

A report reduces a window to four series, three top lists, five totals and the mean
processing time. By hours a series has one point per hour. By days it has one point
per closing hour of a day, the sum over the hours since the previous one; the hours
after the last closing hour are summed but not shown. -/

namespace QueryTally

structure Report where
  queries : List UInt64
  filtered : List UInt64
  safeBrowsing : List UInt64
  parental : List UInt64
  topDomains : List CountPair
  topBlockedDomains : List CountPair
  topClients : List CountPair
  totalQueries : UInt64
  totalFiltered : UInt64
  totalSafeBrowsing : UInt64
  totalSafeSearch : UInt64
  totalParental : UInt64
  /-- Mean over the hours with a mean time of their own, in microseconds, rounded down. -/
  meanMicros : UInt64
  granularity : Granularity
  deriving DecidableEq, Repr

namespace Report

/-- The points of a series by days, `sum` being carried over from the hours before. -/
def daily (sum : UInt64) : List (Hour × UInt64) → Checked (List UInt64)
  | [] => .ok []
  | (hour, n) :: rest => do
    let sum ← addCount sum n
    if hour.closesDay then
      let points ← daily 0 rest
      return sum :: points
    else daily sum rest

def series (w : Window) (g : Granularity) (count : HourRecord → UInt64) :
    Checked (List UInt64) :=
  match g with
  | .hours => .ok (w.records.map count)
  | .days => do
    let hours ← w.hours
    daily 0 (hours.zip (w.records.map count))

/-- The mean of the mean times of the hours that have one, rounded down. -/
def meanTime (records : List HourRecord) : Checked UInt64 := do
  let times := (records.map (·.meanMicros)).filter (· != 0)
  let sum ← sumCounts times
  return if times.isEmpty then 0 else sum / UInt64.ofNat times.length

def ofWindow (w : Window) (g : Granularity) : Checked Report := do
  let queries ← series w g (·.total)
  let filtered ← series w g (·.count .filtered)
  let safeBrowsing ← series w g (·.count .safeBrowsing)
  let parental ← series w g (·.count .parental)
  let topDomains ← mergeTop (w.records.map (·.domains)) topLimit
  let topBlockedDomains ← mergeTop (w.records.map (·.blockedDomains)) topLimit
  let topClients ← mergeTop (w.records.map (·.clients)) topLimit
  let meanMicros ← meanTime w.records
  let total (count : HourRecord → UInt64) := sumCounts (w.records.map count)
  let totalQueries ← total (·.total)
  let totalFiltered ← total (·.count .filtered)
  let totalSafeBrowsing ← total (·.count .safeBrowsing)
  let totalSafeSearch ← total (·.count .safeSearch)
  let totalParental ← total (·.count .parental)
  return {
    queries, filtered, safeBrowsing, parental
    topDomains, topBlockedDomains, topClients
    totalQueries, totalFiltered, totalSafeBrowsing, totalSafeSearch, totalParental
    meanMicros, granularity := g }

def meanSeconds (r : Report) : Float := r.meanMicros.toFloat / 1000000.0

end Report
end QueryTally
