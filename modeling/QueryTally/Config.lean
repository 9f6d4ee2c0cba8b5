import QueryTally.Failure

/-! # Configuration

Where the database is, how many days are retained, and whether and how often the hour
is checked for rotation. Each setting can come from an environment variable; one that
is not set, not text, or not a number where a number is wanted has its default. -/

namespace QueryTally

/-- The number that a text of ASCII digits denotes, after an optional plus sign, if it is
at most `max`. -/
def parseNat? (max : Nat) (s : String) : Option Nat :=
  let digits := match s.toList with
    | '+' :: rest => rest
    | cs => cs
  if digits ≠ [] ∧ digits.all Char.isDigit then
    let n := digits.foldl (fun n c => 10 * n + (c.toNat - 48)) 0
    if n ≤ max then some n else none
  else none

/-- When the rotation task looks at the clock. -/
structure RotationPolicy where
  pollMillis : UInt64 := 1000
  enabled : Bool := true
  deriving DecidableEq, Repr

structure Config where
  /-- The name of the database file. -/
  path : String := "./var/data/stats.db"
  days : UInt32 := 1
  rotation : RotationPolicy := {}
  deriving DecidableEq, Repr

namespace Config

def supportedDays : List UInt32 := [1, 7, 30, 90]

def isSupported (days : UInt32) : Bool := supportedDays.contains days

/-- The retention interval in hours, or the greatest word if that is no word. -/
def limitHours (days : UInt32) : UInt32 :=
  if days.toNat * 24 < UInt32.size then days * 24 else UInt32.ofNat (UInt32.size - 1)

def validate (c : Config) : Except StatsError Unit :=
  if !isSupported c.days then .error (.invalidInterval c.days)
  else if c.rotation.enabled && c.rotation.pollMillis == 0 then .error .invalidPollInterval
  else .ok ()

/-- The configuration that environment variables ask for, given the bytes of each that
is set. -/
def ofEnvironment (raw : String → Option (List UInt8)) : Config :=
  let text (name : String) : Option String := (raw name).bind fun bytes =>
    (Utf8.decode bytes).toOption
  let defaults : Config := {}
  { path := (text "STATS_DB_PATH").getD defaults.path
    days := ((text "STATS_INTERVAL_DAYS").bind (parseNat? (UInt32.size - 1))).elim defaults.days
      UInt32.ofNat
    rotation := {
      pollMillis := ((text "STATS_POLL_INTERVAL_MS").bind (parseNat? (UInt64.size - 1))).elim
        defaults.rotation.pollMillis UInt64.ofNat
      enabled := (text "STATS_ROTATION_ENABLED").elim defaults.rotation.enabled fun s =>
        s == "true" || s == "1" } }

end Config
end QueryTally
