import QueryTally.Verdict
import QueryTally.Tally

/-! # Records of an hour

What is stored of an hour once it is over: its counters, the mean processing time
instead of the sum, and top lists instead of full tallies. -/

namespace QueryTally

/-- The number of names kept in each top list of a record or report. -/
def topLimit : Nat := 100

/-- The stored form of one hour. -/
structure HourRecord where
  /-- The number of queries. -/
  total : UInt64 := 0
  /-- The number of queries with each verdict, in the order of `Verdict.all`. -/
  results : List UInt64 := List.replicate 5 0
  domains : List CountPair := []
  blockedDomains : List CountPair := []
  clients : List CountPair := []
  /-- Mean processing time in microseconds, rounded down. -/
  meanMicros : UInt64 := 0
  deriving DecidableEq, Repr

namespace HourRecord

def empty : HourRecord := {}

instance : Inhabited HourRecord := ⟨empty⟩

/-- The number of queries with a verdict; a counter that the record lacks is zero. -/
def count (r : HourRecord) (v : Verdict) : UInt64 := r.results[v.slot]?.getD 0

end HourRecord
end QueryTally
