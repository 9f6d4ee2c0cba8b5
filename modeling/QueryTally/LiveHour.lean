import QueryTally.Hour
import QueryTally.Event
import QueryTally.HourRecord

/-! # The live hour

The hour that is being counted. Each lookup raises the counter of its verdict, the
count of its domain (among the passed or the blocked ones), the count of its client,
the summed time and the total. The hour is reduced to a record for storage, and may
be taken up again from one: the tallies then hold what the top lists kept, and the
summed time is the mean times the total. -/

namespace QueryTally

/-- One counter for each verdict. -/
structure VerdictCounts where
  notFiltered : UInt64 := 0
  filtered : UInt64 := 0
  safeBrowsing : UInt64 := 0
  safeSearch : UInt64 := 0
  parental : UInt64 := 0
  deriving DecidableEq, Repr, Inhabited

namespace VerdictCounts

def get (c : VerdictCounts) : Verdict → UInt64
  | .notFiltered => c.notFiltered
  | .filtered => c.filtered
  | .safeBrowsing => c.safeBrowsing
  | .safeSearch => c.safeSearch
  | .parental => c.parental

def set (c : VerdictCounts) (n : UInt64) : Verdict → VerdictCounts
  | .notFiltered => { c with notFiltered := n }
  | .filtered => { c with filtered := n }
  | .safeBrowsing => { c with safeBrowsing := n }
  | .safeSearch => { c with safeSearch := n }
  | .parental => { c with parental := n }

def bump (c : VerdictCounts) (v : Verdict) : Checked VerdictCounts := do
  let n ← addCount (c.get v) 1
  return c.set n v

/-- The counters in the order of `Verdict.all`. -/
def toList (c : VerdictCounts) : List UInt64 := Verdict.all.map c.get

/-- The counters whose values a list gives in the order of `Verdict.all`. Missing ones
are zero, and what follows the fifth is ignored. -/
def ofList (ns : List UInt64) : VerdictCounts :=
  Verdict.all.foldl (fun c v => c.set (ns[v.slot]?.getD 0) v) {}

@[simp] theorem get_set (c : VerdictCounts) (n : UInt64) (v w : Verdict) :
    (c.set n v).get w = if w = v then n else c.get w := by
  cases v <;> cases w <;> rfl

theorem get_ofList (ns : List UInt64) (v : Verdict) :
    (ofList ns).get v = ns[v.slot]?.getD 0 := by
  cases v <;> rfl

theorem ofList_toList (c : VerdictCounts) : ofList c.toList = c := rfl

end VerdictCounts

/-- The statistics of the hour that is being counted. -/
structure LiveHour where
  hour : Hour
  /-- The number of queries. -/
  total : UInt64 := 0
  results : VerdictCounts := {}
  /-- Summed processing time in microseconds. -/
  micros : UInt64 := 0
  domains : Tally := Tally.empty
  blockedDomains : Tally := Tally.empty
  clients : Tally := Tally.empty
  deriving DecidableEq

namespace LiveHour

def start (hour : Hour) : LiveHour := { hour }

def record (u : LiveHour) (l : Lookup) : Checked LiveHour := do
  let results ← u.results.bump l.verdict
  let domains ← if l.verdict.isBlocked then pure u.domains else u.domains.bump l.domain 1
  let blockedDomains ←
    if l.verdict.isBlocked then u.blockedDomains.bump l.domain 1 else pure u.blockedDomains
  let clients ← u.clients.bump l.client 1
  let micros ← addCount u.micros l.micros
  let total ← addCount u.total 1
  return { u with total, results, micros, domains, blockedDomains, clients }

def recordTimes (u : LiveHour) (l : Lookup) : Nat → Checked LiveHour
  | 0 => .ok u
  | n + 1 => do
    let u ← u.record l
    u.recordTimes l n

/-- Counts an event, or leaves the hour as it is if the event does not count. -/
def ingest (u : LiveHour) (e : Event) : Checked LiveHour :=
  match e.lookup? with
  | some l => u.record l
  | none => .ok u

/-- The mean processing time, rounded down; zero if nothing was counted. -/
def meanMicros (u : LiveHour) : UInt64 := if u.total = 0 then 0 else u.micros / u.total

def toRecord (u : LiveHour) : HourRecord where
  total := u.total
  results := u.results.toList
  domains := u.domains.top topLimit
  blockedDomains := u.blockedDomains.top topLimit
  clients := u.clients.top topLimit
  meanMicros := u.meanMicros

def ofRecord (hour : Hour) (r : HourRecord) : Checked LiveHour := do
  let micros ← mulCount r.meanMicros r.total
  return {
    hour
    total := r.total
    results := VerdictCounts.ofList r.results
    micros
    domains := Tally.ofPairs r.domains
    blockedDomains := Tally.ofPairs r.blockedDomains
    clients := Tally.ofPairs r.clients }

end LiveHour
end QueryTally
