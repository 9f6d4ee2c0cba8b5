/-! # Granularity of a series

A report shows its series hour by hour or day by day. On a command line the unit
may be given in the singular; in a report it is always the plural. -/

namespace QueryTally

/-- Whether a series has one point per hour or one per day. -/
inductive Granularity where
  | hours
  | days
  deriving DecidableEq, Repr, Inhabited

namespace Granularity

def name : Granularity → String
  | hours => "hours"
  | days => "days"

def stepName : Granularity → String
  | hours => "hour"
  | days => "day"

def ofName? (s : String) : Option Granularity :=
  if s = "hours" then some hours else if s = "days" then some days else none

/-- The granularity that a user names, in the singular or the plural. -/
def parse (s : String) : Except String Granularity :=
  if s = "hour" ∨ s = "hours" then .ok hours
  else if s = "day" ∨ s = "days" then .ok days
  else .error s!"unknown time unit: {s}"

end Granularity
end QueryTally
