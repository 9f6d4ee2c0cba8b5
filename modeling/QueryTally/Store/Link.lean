import QueryTally.Store.Location

/-! # Connections

A connection is made to the file that stands at a place, and stays with that file. Beside
the place stand its companions: a journal, from which a transaction that was cut off is
taken back, and a log with an index, to which changes go instead of to the file if it is
there. What a connection can do depends on them and on whether its file is still in its
place. -/

namespace QueryTally

structure Link where
  /-- The number that tells connections apart. -/
  number : Nat
  file : FileNumber
  /-- Where the file was when it was opened; nothing for a file in memory. -/
  place : Option Path
  /-- Whether the file was opened only to be read. -/
  readOnly : Bool := false
  deriving DecidableEq, Repr

/-- The suffixes of the files that belong to a database, its own first. -/
def companions : List String := ["", "-journal", "-wal", "-shm"]

namespace Path

def journal (place : Path) : Path := place.withSuffix "-journal"

def log (place : Path) : Path := place.withSuffix "-wal"

def logIndex (place : Path) : Path := place.withSuffix "-shm"

end Path

namespace Disk

def database (d : Disk) (f : FileNumber) : Database := (d.content f).toDatabase

/-- Whether a regular file that is not empty stands at a path. -/
def holds (d : Disk) (p : Path) : Bool :=
  match d.node p with
  | .file f => !(d.content f).isEmpty
  | _ => false

def isLogging (d : Disk) (link : Link) : Bool := d.logging.contains (link.number, link.file)

/-- Whether a connection that begins to read now finds a log to write to. -/
def findsLog (d : Disk) (link : Link) (place : Path) : Bool :=
  (d.database link.file).formatted && d.holds place.log

/-- Whether there is a journal that cannot be taken back: a directory, or a journal beside a
place from which the file is gone. An empty file needs no journal. -/
def journalStuck (d : Disk) (link : Link) (place : Path) : Bool :=
  (d.database link.file).formatted && ((d.node place.journal).isDirectory ||
    (d.node place).isAbsent && d.holds place.journal)

/-- What becomes of an attempt to turn to a log, if something keeps a connection from it. -/
def logFailure (d : Disk) (link : Link) (place : Path) (worst : Refusal) : Option Refusal :=
  let log := d.node place.log
  if !(d.database link.file).formatted then if log.isDirectory then some worst else none
  else if (d.node place).isAbsent && (log.isDirectory || d.holds place.log) then some worst
  else if log.isDirectory || d.findsLog link place && (d.node place.logIndex).isDirectory then
    some .statement
  else none

/-- The mark by which a connection knows whether a database has changed. -/
def stamp (d : Disk) (link : Link) : Nat × Bool :=
  ((d.database link.file).changes, (d.database link.file).table.isSome)

/-- Whether a connection takes its file for something that is no database: because it is none,
or because the connection saw it empty, and finds the mark that it knew from before. -/
def mistrusts (d : Disk) (link : Link) : Bool :=
  let memory := d.memory link.number
  (d.content link.file).isJunk || (d.database link.file).formatted && memory.emptied &&
    memory.stamp == some (d.stamp link)

/-- What becomes of an attempt to read, if a companion or the file itself keeps a connection
from it. The worst end is spared a connection that knows the table to be missing. -/
def readFailure (d : Disk) (link : Link) : Option Refusal :=
  let worst := if (d.memory link.number).tableMissing then Refusal.statement else .transaction
  let mistrust := if d.mistrusts link then some Refusal.statement else none
  match link.place with
  | none => none
  | some place =>
    if d.isLogging link then mistrust
    else if d.journalStuck link place then some worst
    else (d.logFailure link place worst).or mistrust

/-- The database as a connection sees it. A file that is not in its place any more can be
changed only through a log. An empty one cannot be laid out without a journal, which needs a
file in its place. -/
def seen (d : Disk) (link : Link) : Database :=
  let db := if link.readOnly then (d.database link.file).readOnly else d.database link.file
  match d.readFailure link, link.place with
  | some refusal, _ => .unreadable refusal
  | none, none => db
  | none, some place =>
    if d.isLogging link || d.findsLog link place then db
    else if db.formatted then if d.node place = .file link.file then db else db.freeze
    else if (d.node place).isAbsent || (d.node place.journal).isDirectory || !place.journal.fits
    then db.sealed
    else db

/-- Takes back what a journal was left behind for, which is nothing, and removes it. A journal
that begins with a zero byte is finished, unless its file is empty. -/
def clearJournal (d : Disk) (link : Link) (place : Path) : Disk :=
  match d.node place.journal with
  | .file j =>
    let finished := (d.database link.file).formatted && (d.content j).beginsWithZero
    if (d.content j).isEmpty || finished then d else d.unlink place.journal
  | _ => d

/-- Turns to the log if one is there. The log of an empty file is removed. -/
def openLog (d : Disk) (link : Link) (place : Path) : Disk :=
  if d.findsLog link place then
    let d := { d with logging := (link.number, link.file) :: d.logging }
    match d.node place.logIndex with
    | .absent => d.make place.logIndex (.bytes [1, 1])
    | _ => d
  else if d.holds place.log then d.unlink place.log
  else d

def learned (d : Disk) (link : Link) : Memory :=
  let db := d.database link.file
  let old := d.memory link.number
  if (d.content link.file).isJunk then { old with stamp := none, emptied := false }
  else if !db.formatted then { old with tableMissing := true, emptied := true }
  else if d.mistrusts link then old
  else { tableMissing := db.table.isNone, stamp := some (d.stamp link) }

def remember (d : Disk) (link : Link) : Disk :=
  let new := d.learned link
  if new = d.memory link.number then d
  else { d with memory := fun n => if n = link.number then new else d.memory n }

/-- The disk after a connection has looked into its file, or has tried to. -/
def look (d : Disk) (link : Link) : Disk :=
  match link.place with
  | none => d
  | some place =>
    if d.isLogging link then d.remember link
    else if d.journalStuck link place then d
    else
      let d := d.clearJournal link place
      if (d.logFailure link place .statement).isSome then d
      else (d.openLog link place).remember link

/-- The disk after a connection has kept a journal of a change. -/
def dropJournal (d : Disk) (link : Link) : Disk :=
  match link.place with
  | none => d
  | some place => if d.isLogging link then d else d.unlink place.journal

def putTable (d : Disk) (link : Link) (table : Option Table) : Disk :=
  let db := d.database link.file
  let changes := if db.formatted && db.table == table then db.changes else db.changes + 1
  let d := d.fill link.file (.database { db with table, formatted := true, changes })
  let new : Memory := { tableMissing := table.isNone, stamp := some (d.stamp link) }
  { d with memory := fun n => if n = link.number then new else d.memory n }

/-- Ends a connection. The last one that writes to a log takes the log away, if its file is
still in its place. -/
def release (d : Disk) (link : Link) : Disk :=
  if d.isLogging link then
    let d := { d with logging := d.logging.erase (link.number, link.file) }
    match link.place with
    | none => d
    | some place =>
      if d.logging.any (·.2 == link.file) || d.node place != .file link.file then d
      else (d.unlink place.log).unlink place.logIndex
  else d

def newLink (d : Disk) (file : FileNumber) (place : Option Path) (readOnly : Bool) : Link × Disk :=
  ({ number := d.next, file, place, readOnly }, { d with next := d.next + 1 })

/-- Opens the file of a database, without a look into it. -/
def attach (d : Disk) (name : String) : Option Link × Disk :=
  match Location.ofName? name with
  | none => (none, d)
  | some .memory =>
    let (link, d) := d.newLink d.next none false
    (some link, d.fill link.file (.bytes []))
  | some (.file name access) =>
    match d.locate name with
    | none => (none, d)
    | some place =>
      if !d.reachable place then (none, d)
      else
        match d.node place with
        | .directory => (none, d)
        | .file f =>
          let (link, d) := d.newLink f (some place) (access = .read)
          (some link, d)
        | .absent =>
          if access = .create then
            let (link, d) := (d.make place (.bytes [])).newLink d.next (some place) false
            (some link, d)
          else (none, d)

/-- Connects to the database that a name means. A missing file is made, and a file without the
table, such as an empty one, is given an empty table. -/
def connect (d : Disk) (name : String) : Except StoreError Link × Disk :=
  match d.attach name with
  | (none, d) => (.error .database, d)
  | (some link, d) =>
    let db := d.seen link
    let d := d.look link
    if db.table.isSome then (.ok link, d)
    else if db.faults.begin true || link.readOnly then (.error .database, d.release link)
    else (.ok link, (d.dropJournal link).putTable link Table.empty)

end Disk
end QueryTally
