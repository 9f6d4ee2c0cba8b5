import QueryTally.Engine.Rotation

/-! # The rotation task

A task that looks at the clock again and again and rotates its engine when the hour
has changed. It ends when it is told to stop, when whoever could tell it is gone, and
at the first look that finds its engine gone or closed. -/

namespace QueryTally

/-- What a task hears on its shutdown channel before it starts. -/
inductive Signal where
  /-- To stop. -/
  | stop
  /-- To go on. -/
  | goOn
  /-- That nobody will ever tell it anything. -/
  | hangUp
  /-- Nothing. -/
  | silence
  deriving DecidableEq, Repr

namespace RotationTask

structure Look where
  /-- Whether the task ends. -/
  ends : Bool
  engine : Option Engine
  disk : Disk
  notices : List Notice

/-- One look at the clock. An overflow in the rotation does not end the task. -/
def look (engine : Option Engine) (now : Hour) (disk : Disk) : Look :=
  match engine with
  | none => { ends := true, engine, disk, notices := [] }
  | some e =>
    if e.isClosed then { ends := true, engine, disk, notices := [] }
    else
      let turn := e.rotate now disk
      let outcome := match turn.result with
        | .ok true => [.rotated]
        | .ok false => []
        | .error o => [.rotationFailed o]
      { ends := false, engine := some turn.engine, disk := turn.disk
        notices := turn.notices ++ outcome }

/-- A task from its start on, up to where it would only wait. -/
def run (policy : RotationPolicy) (signal : Signal) (engine : Option Engine) (now : Hour)
    (disk : Disk) : Look :=
  if !policy.enabled then { ends := true, engine, disk, notices := [.rotationDisabled] }
  else if policy.pollMillis = 0 then
    { ends := true, engine, disk, notices := [.rotationWithoutInterval] }
  else
    let started := [Notice.rotationStarted policy.pollMillis]
    match signal with
    | .stop | .hangUp => { ends := true, engine, disk, notices := started ++ [.rotationStopped] }
    | .goOn | .silence =>
      let first := look engine now disk
      { first with
        notices := started ++ first.notices ++ if first.ends then [.rotationStopped] else [] }

end RotationTask
end QueryTally
