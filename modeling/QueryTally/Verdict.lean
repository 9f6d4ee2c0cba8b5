/-! # Verdicts

How the resolver answered a query: passed on, or held back for one of four
reasons. A verdict has a code on the wire (1 to 5) and a slot in the per-verdict
counters of an hour (0 to 4). -/

namespace QueryTally

inductive Verdict where
  | notFiltered
  | filtered
  | safeBrowsing
  | safeSearch
  | parental
  deriving DecidableEq, Repr

namespace Verdict

/-- Every verdict, in the order of the counters. -/
def all : List Verdict := [notFiltered, filtered, safeBrowsing, safeSearch, parental]

def slot : Verdict → Nat
  | notFiltered => 0
  | filtered => 1
  | safeBrowsing => 2
  | safeSearch => 3
  | parental => 4

def code (v : Verdict) : Nat := v.slot + 1

def ofCode? (n : Nat) : Option Verdict := all.find? (·.code == n)

/-- A query with any verdict but `notFiltered` counts against its domain as blocked. -/
def isBlocked (v : Verdict) : Bool := v != notFiltered

def name : Verdict → String
  | notFiltered => "NotFiltered"
  | filtered => "Filtered"
  | safeBrowsing => "SafeBrowsing"
  | safeSearch => "SafeSearch"
  | parental => "Parental"

def ofName? (s : String) : Option Verdict := all.find? (·.name == s)

end Verdict
end QueryTally
