import QueryTally.Engine.Opening
import QueryTally.Engine.Query
import QueryTally.Engine.Rotation
import QueryTally.Report.Text
import QueryTally.Viewer.Arguments

/-! # The viewer

A program that shows the statistics in a database, shows its retention settings, or
deletes the statistics. It opens an engine without a rotation task, does what it is
asked and closes the engine. -/

namespace QueryTally.Viewer

structure Exit where
  code : Nat
  /-- The lines that were printed. -/
  lines : List String := []
  /-- The failure that ended the run, if one did. -/
  error : Option StatsError := none
  disk : Disk

def storeErrorWord : StoreError → String
  | .database => "Sqlite"
  | .codec _ => "Codec"
  | .io => "Io"
  | .unavailable => "Unavailable"
  | .readOnly => "ReadOnly"

def errorText : StatsError → String
  | .storage e => s!"Storage({storeErrorWord e})"
  | .invalidInterval days => s!"InvalidInterval({days})"
  | .invalidPollInterval => "InvalidPollInterval"
  | .noRuntime => "NoRuntime"
  | .windowMismatch expected actual =>
    s!"WindowMismatch \x7b expected: {expected}, actual: {actual} \x7d"

def failed (disk : Disk) (e : StatsError) : Exit := { code := 1, error := some e, disk }

def stopped (disk : Disk) : Exit := { code := 101, disk }

/-- The lines of a report in a given form; every form but `json` is for people. -/
def reportLines (format : String) (r : Report) : List String :=
  if format = "json" then r.jsonLines else r.plainLines

def infoLines (e : Engine) : List String :=
  [s!"Interval:     {e.days} days", s!"Window:       {e.limit} hours"] ++
    match e.hour? with
    | some hour => [s!"Current unit: {hour}"]
    | none => []

/-- Does what is asked with an engine that has been opened, and closes it. -/
def perform (e : Engine) (now : Hour) (disk : Disk) : Command → Exit
  | .report g format =>
    let answer := e.query g now disk
    match answer.result with
    | .ok r => { code := 0, lines := reportLines format r, disk := (e.close answer.disk).disk }
    | .error (.failure err) => failed (e.close answer.disk).disk err
    | .error (.overflow _) => stopped answer.disk
  | .info => { code := 0, lines := infoLines e, disk := (e.close disk).disk }
  | .reset =>
    let cleared := e.clear now disk
    { code := 0, lines := ["Statistics cleared"]
      disk := (cleared.engine.close cleared.disk).disk }

def runWith (a : Arguments) (now : Hour) (disk : Disk) : Exit :=
  let config : Config := { path := a.path, days := a.days, rotation := { enabled := false } }
  match config.validate with
  | .error e => failed disk e
  | .ok () =>
    let opening := Engine.launch config false now disk
    match opening.result with
    | .ok e => perform e now opening.disk a.command
    | .error (.failure e) => failed opening.disk e
    | .error (.overflow _) => stopped opening.disk

def run (arguments : List String) (now : Hour) (disk : Disk) : Exit :=
  match readArguments arguments with
  | .ok a => runWith a now disk
  | .error .help => { code := 0, disk }
  | .error .usage => { code := 2, disk }

end QueryTally.Viewer
