import QueryTally.Report
import QueryTally.Decimal.Shortest
import QueryTally.Decimal.Fixed
import QueryTally.JsonText

/-! # Reports as text

A report is printed for people, with the ten highest entries of each top list, or as
JSON with everything in it. Both are lists of lines. -/

namespace QueryTally.Report

def padRight (width : Nat) (s : String) : String :=
  s ++ String.ofList (List.replicate (width - s.length) ' ')

def padLeft (width : Nat) (s : String) : String :=
  String.ofList (List.replicate (width - s.length) ' ') ++ s

def topLines (title : String) (pairs : List CountPair) : List String :=
  ["", title ++ ":"] ++
    if pairs.isEmpty then ["  (none)"]
    else (pairs.take 10).map fun p =>
      "  " ++ padRight 40 p.name ++ " " ++ padLeft 10 (toString p.count)

def plainLines (r : Report) : List String :=
  [s!"📊 DNS Statistics ({r.granularity.name})",
   "",
   s!"DNS queries:            {r.totalQueries}",
   s!"Blocked by filters:     {r.totalFiltered}",
   s!"Safe browsing:          {r.totalSafeBrowsing}",
   s!"Safe search:            {r.totalSafeSearch}",
   s!"Parental control:       {r.totalParental}",
   "Avg processing time:    " ++ Decimal.fixed 3 (r.meanSeconds * 1000.0) ++ " ms",
   "",
   s!"Queries per {r.granularity.stepName}:",
   "  " ++ " ".intercalate (r.queries.map toString)] ++
  topLines "Top queried domains" r.topDomains ++
  topLines "Top blocked domains" r.topBlockedDomains ++
  topLines "Top clients" r.topClients

/-- How JSON writes a number with a fraction: with an exponent only below `1e-5` and from
`1e16` on. -/
def jsonLayout : Decimal.Layout := { lowest := -5, highest := 16 }

def jsonFloat (x : Float) : String :=
  if x == 0.0 then "0.0" else jsonLayout.write (Decimal.shortest x)

def jsonCounts (ns : List UInt64) : JsonText.Block :=
  JsonText.list (ns.map fun n => [toString n])

/-- A top list in JSON: an object of one entry for each pair. -/
def jsonPairs (pairs : List CountPair) : JsonText.Block :=
  JsonText.list (pairs.map fun p => JsonText.object [(p.name, [toString p.count])])

def jsonLines (r : Report) : List String :=
  JsonText.object [
    ("dns_queries", jsonCounts r.queries),
    ("blocked_filtering", jsonCounts r.filtered),
    ("replaced_safebrowsing", jsonCounts r.safeBrowsing),
    ("replaced_parental", jsonCounts r.parental),
    ("top_queried_domains", jsonPairs r.topDomains),
    ("top_blocked_domains", jsonPairs r.topBlockedDomains),
    ("top_clients", jsonPairs r.topClients),
    ("num_dns_queries", [toString r.totalQueries]),
    ("num_blocked_filtering", [toString r.totalFiltered]),
    ("num_replaced_safebrowsing", [toString r.totalSafeBrowsing]),
    ("num_replaced_safesearch", [toString r.totalSafeSearch]),
    ("num_replaced_parental", [toString r.totalParental]),
    ("avg_processing_time", [jsonFloat r.meanSeconds]),
    ("time_units", [JsonText.quote r.granularity.name])]

end QueryTally.Report
