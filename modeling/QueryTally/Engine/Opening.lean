import QueryTally.Engine
import QueryTally.Store.Purge

/-! # Opening the engine

An engine is opened on the database that its configuration names. Hours that are more
than an hour outside the retention window are purged, and the present hour is taken up
again if a record of it is stored. The rotation task is started last, so the purge
stands even if that fails. -/

namespace QueryTally

/-- Whether a rotation task can be started, and if not, why. A zero interval is found out
before it is asked whether a task can run at all. -/
def startRotation (pollMillis : UInt64) (runtime : Bool) : Except StatsError Unit :=
  if pollMillis = 0 then .error .invalidPollInterval
  else if !runtime then .error .noRuntime
  else .ok ()

namespace Engine

structure Opening where
  result : Except Halt Engine
  /-- The disk afterwards, also where there is no engine. -/
  disk : Disk
  notices : List Notice

/-- The first hour that an opening keeps. -/
def openingCutoff (now : Hour) (limit : UInt32) : Checked Hour := do
  let start ← now.minus (Hour.ofCount limit.toNat)
  start.minus 1

structure Recovery where
  result : Checked (Option HourRecord)
  disk : Disk
  notices : List Notice

/-- Purges the store and reads the record of the present hour. The purge is committed if
it deleted anything. -/
def recover (store : Store) (limit : UInt32) (now : Hour) (disk : Disk) : Recovery :=
  match store.begin disk true with
  | (none, disk, notices) => { result := .ok none, disk, notices }
  | (some t, disk, notices) =>
    match openingCutoff now limit with
    | .error o =>
      { result := .error o
        disk := store.settle disk t.drop
        notices := notices ++ [.purging] ++ t.drop.notices }
    | .ok cutoff =>
      let purge := t.purgeBefore cutoff
      let found := purge.transaction.get now
      let missed := match found with
        | .ok _ => []
        | .error e => [.loadFailed now e]
      let ending := if purge.deletedAny then purge.transaction.commit
        else purge.transaction.rollback
      let refused := match ending.result with
        | .ok () => []
        | .error e => [.commitFailed e]
      { result := .ok (match found with
          | .ok record => record
          | .error _ => none)
        disk := store.settle disk ending
        notices := notices ++ [.purging] ++ purge.notices ++ missed ++ ending.notices ++ refused }

/-- The live hour to begin with: the stored one, or one without queries. -/
def resume (now : Hour) : Option HourRecord → Checked LiveHour
  | some record => LiveHour.ofRecord now record
  | none => .ok (LiveHour.start now)

def launch (c : Config) (runtime : Bool) (now : Hour) (disk : Disk) : Opening :=
  match Store.connect c.path disk with
  | (.error e, disk, notices) =>
    { result := .error (.failure (.storage e)), disk
      notices := notices ++ [.openFailed c.path e] }
  | (.ok store, disk, opened) =>
    let limit := Config.limitHours c.days
    let recovery := recover store limit now disk
    let disk := recovery.disk
    let notices := opened ++ recovery.notices
    match recovery.result with
    | .error o => { result := .error (.overflow o), disk := store.release disk, notices }
    | .ok record =>
      let notices := notices ++ (record.map fun r => Notice.resuming now r.total).toList
      match resume now record with
      | .error o => { result := .error (.overflow o), disk := store.release disk, notices }
      | .ok live =>
        let engine : Engine := { limit, store, live := some live }
        let started :=
          if c.rotation.enabled then startRotation c.rotation.pollMillis runtime else .ok ()
        match started with
        | .error e => { result := .error (.failure e), disk := store.release disk, notices }
        | .ok () => { result := .ok engine, disk, notices := notices ++ [.initialized] }

end Engine
end QueryTally
