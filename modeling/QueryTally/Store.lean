import QueryTally.Store.Link
import QueryTally.Store.Transaction
import QueryTally.Quoted

/-! # The store

A store is a connection to the database in which the records of hours are kept. It
is open until it is closed or a reset fails. A reset deletes the database with its
companion files and starts an empty one. -/

namespace QueryTally

/-- A connection to a database file. -/
structure Store where
  /-- The name of the file. -/
  name : String
  /-- The connection; nothing once the store is closed. -/
  link : Option Link

namespace Store

def isOpen (s : Store) : Bool := s.link.isSome

def debugText (s : Store) : String :=
  "UnitStore \x7b path: " ++ Quoted.encode s.name ++ s!", open: {s.isOpen} \x7d"

/-- Connects to a database, making the directories above it and the database itself
where they are missing. -/
def connect (name : String) (d : Disk) : Except StoreError Store × Disk × List Notice :=
  match d.makeParents name with
  | (.error e, d) => (.error e, d, [])
  | (.ok (), d) =>
    match d.connect name with
    | (.error e, d) => (.error e, d, [])
    | (.ok link, d) => (.ok { name, link := some link }, d, [.storeOpened name])

/-- Begins a transaction. One that may write looks into the file at once, even if it is then
refused. -/
def begin (s : Store) (d : Disk) (writable : Bool) :
    Option Transaction × Disk × List Notice :=
  match s.link with
  | none => (none, d, [.beginWhileClosed])
  | some link =>
    let looked := if writable then d.look link else d
    match (d.seen link).begin writable with
    | none => (none, looked, [.beginRefused])
    | some t => (some t, looked, [.begun writable])

/-- The disk after a transaction. Only one that may write can have changed anything. -/
def settle (s : Store) (d : Disk) (ending : Transaction.Ending) : Disk :=
  match s.link with
  | none => d
  | some link =>
    let t := ending.transaction
    if t.writable then
      let changed := t.view != t.base.table || !t.base.formatted
      let d := if changed then d.dropJournal link else d
      if ending.database.formatted then d.putTable link ending.database.table else d
    else if t.looked then d.look link
    else d

def release (s : Store) (d : Disk) : Disk :=
  match s.link with
  | none => d
  | some link => d.release link

def close (s : Store) (d : Disk) : Store × Disk × List Notice :=
  ({ s with link := none }, s.release d, if s.isOpen then [.storeClosed] else [])

/-- Deletes the database and starts an empty one. If that fails the store is closed. -/
def reset (s : Store) (d : Disk) : Except StoreError Unit × Store × Disk × List Notice :=
  let shut := { s with link := none }
  match (s.release d).removeFiles (companions.map (s.name ++ ·)) with
  | (.error e, d) => (.error e, shut, d, [])
  | (.ok (), d) =>
    match d.connect s.name with
    | (.error e, d) => (.error e, shut, d, [])
    | (.ok link, d) => (.ok (), { s with link := some link }, d, [.storeReset])

/-- The records of hours, read one after the other; an hour without a record, or with
one that cannot be read, counts as empty. -/
def loadFrom (t : Transaction) (hours : List Hour) : List (HourRecord × List Notice) :=
  hours.map fun hour =>
    match t.get hour with
    | .ok (some record) => (record, [])
    | .ok none => (.empty, [])
    | .error e => (.empty, [.loadFailed hour e])

structure Loading where
  records : List HourRecord
  disk : Disk
  notices : List Notice

def load (s : Store) (d : Disk) (first last : Hour) : Loading :=
  let hours := Hour.range first last
  match s.begin d false with
  | (none, disk, notices) => { records := hours.map fun _ => .empty, disk, notices }
  | (some t, disk, notices) =>
    let loaded := loadFrom t hours
    let ending := (if hours.isEmpty then t else t.look).rollback
    { records := loaded.map (·.1)
      disk := s.settle disk ending
      notices := notices ++ loaded.flatMap (·.2) ++ ending.notices }

end Store
end QueryTally
