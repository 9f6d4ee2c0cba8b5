import QueryTally.Engine
import QueryTally.Store.Purge

/-! # Rotation, clearing and closing

When the present hour is no longer the live one, the live hour is retired: a new one
takes its place, and in one transaction its record is stored and the hours before the
retention window are deleted. The retired hour is gone from memory even if storing it
fails. Clearing starts over with an empty database, or without one; closing stores the
live hour and ends the engine. -/

namespace QueryTally.Engine

structure Turn (α : Type) where
  result : Checked α
  engine : Engine
  disk : Disk
  notices : List Notice

def flushNotices (hour : Hour) : Except StoreError Unit → List Notice
  | .ok () => []
  | .error e => [.flushFailed hour e]

def commitNotices (ending : Transaction.Ending) : List Notice :=
  ending.notices ++ match ending.result with
    | .ok () => []
    | .error e => [.commitFailed e]

/-- Stores a retired hour and deletes what lies before the retention window. Nothing is
committed if there was nothing to commit. -/
def flush (e : Engine) (retired : LiveHour) (now : Hour) (t : Transaction) :
    Checked Unit × Transaction.Ending :=
  let (put, t) := t.put retired.hour retired.toRecord
  let before := Notice.flushing retired.hour :: flushNotices retired.hour put
  match now.windowStart e.limit with
  | .error o => (.error o, { t.drop with notices := before ++ t.drop.notices })
  | .ok cutoff =>
    let purge := t.purgeBefore cutoff
    let before := before ++ purge.notices
    if put.isOk || purge.deletedAny then
      let ending := purge.transaction.commit
      (.ok (), { ending with notices := before ++ commitNotices ending })
    else
      let ending := purge.transaction.rollback
      (.ok (), { ending with notices := before ++ ending.notices })

/-- Retires the live hour if it is not the present one; says whether it did. -/
def rotate (e : Engine) (now : Hour) (disk : Disk) : Turn Bool :=
  match e.live with
  | none => { result := .ok false, engine := e, disk, notices := [] }
  | some retired =>
    if retired.hour = now then { result := .ok false, engine := e, disk, notices := [] }
    else
      let engine := { e with live := some (LiveHour.start now) }
      match e.store.begin disk true with
      | (none, disk, notices) =>
        { result := .ok true, engine, disk, notices := notices ++ [.notFlushed retired.hour] }
      | (some t, disk, notices) =>
        let (result, ending) := e.flush retired now t
        { result := result.map fun _ => true
          engine
          disk := e.store.settle disk ending
          notices := notices ++ ending.notices }

/-- Drops all statistics and counts from the present hour on. If the database cannot be
started anew the engine counts without one. A closed engine stays as it is. -/
def clear (e : Engine) (now : Hour) (disk : Disk) : Turn Unit :=
  if e.isClosed then { result := .ok (), engine := e, disk, notices := [.clearIgnored] }
  else
    let (result, store, disk, notices) := e.store.reset disk
    let failed := match result with
      | .ok () => []
      | .error err => [.unavailableAfterClear err]
    { result := .ok ()
      engine := { e with store, live := some (LiveHour.start now) }
      disk
      notices := notices ++ failed ++ [.cleared] }

def flushLast (e : Engine) (disk : Disk) : Disk × List Notice :=
  match e.live with
  | none => (disk, [])
  | some live =>
    match e.store.begin disk true with
    | (none, disk, notices) => (disk, notices)
    | (some t, disk, notices) =>
      let (put, t) := t.put live.hour live.toRecord
      match put with
      | .ok () =>
        let ending := t.commit
        (e.store.settle disk ending, notices ++ commitNotices ending)
      | .error err =>
        let ending := t.rollback
        (e.store.settle disk ending,
          notices ++ [.flushFailed live.hour err] ++ ending.notices)

/-- Ends the engine: the live hour is stored, the store is closed, and the tasks that
work for the engine are told to stop. -/
def close (e : Engine) (disk : Disk) : Turn Unit :=
  let (disk, flushed) := e.flushLast disk
  let (store, disk, shut) := e.store.close disk
  { result := .ok ()
    engine := { e with store, live := none, shutdown := true }
    disk
    notices := flushed ++ shut ++ [.closed] }

end QueryTally.Engine
