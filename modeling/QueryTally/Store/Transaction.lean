import QueryTally.HourRecord.Codec
import QueryTally.Store.Scan

/-! # Transactions

A transaction works on its own view of the table. A commit makes the view durable, a
rollback keeps what was there when the transaction began. A put that the database
refuses, or a look at a table that cannot be read, may also make it roll back and end the
transaction by itself; what the transaction does after that takes effect at once, and it
can be neither committed nor rolled back. -/

namespace QueryTally

structure Transaction where
  writable : Bool
  /-- The database as it was when the transaction began. -/
  base : Database
  /-- The table as the transaction sees it. -/
  view : Option Table
  /-- Whether the database has ended the transaction by itself. -/
  ended : Bool := false
  /-- Whether a row was put or deleted. -/
  dirty : Bool := false
  /-- The number of puts and deletes that it was asked for. -/
  made : Nat := 0
  /-- Whether it has looked into the database. One that may write does so at once. -/
  looked : Bool := false

/-- Begins a transaction, unless the database refuses. -/
def Database.begin (db : Database) (writable : Bool) : Option Transaction :=
  if db.faults.begin writable then none
  else some { writable, base := db, view := db.table, looked := writable }

namespace Transaction

/-- The durable content while the transaction is under way. -/
def durable (t : Transaction) : Database :=
  if t.ended then { t.base with table := t.view } else t.base

/-- The transaction after the database has rolled it back by itself. -/
def abort (t : Transaction) : Transaction :=
  if t.ended then t else { t with view := t.base.table, ended := true, dirty := false }

/-- The transaction after a statement has looked for the table. -/
def look (t : Transaction) : Transaction :=
  let next := { t with looked := true }
  if t.view.isNone && t.base.faults.readEnds then next.abort else next

/-- Whether the database has no place for a new table. It has none for the row either by which
a commit is refused. -/
def refusesTable (t : Transaction) (table : Table) : Bool :=
  t.base.faults.frozen && (t.view != some table || t.base.faults.commit true)

/-- A statement gives the view a new table, if the database lets it. Once the transaction
has ended the statement is committed by itself, and undone if that is refused. -/
def write {α : Type} (t : Transaction) (table : Table) (a : α) :
    Except StoreError α × Transaction :=
  if t.ended && t.base.faults.commit true || t.refusesTable table then (.error .database, t)
  else (.ok a, { t with view := some table, dirty := true })

def put (t : Transaction) (hour : Hour) (record : HourRecord) :
    Except StoreError Unit × Transaction :=
  if !t.writable then (.error .readOnly, t)
  else
    let next := { t.look with made := t.made + 1 }
    match t.view with
    | none => (.error .database, next)
    | some table =>
      match t.base.faults.put t.made hour.cell with
      | some .statement => (.error .database, next)
      | some .transaction => (.error .database, next.abort)
      | none => next.write (table.put ⟨hour.cell, recordSlot, .blob (Codec.encode record)⟩) ()

def get (t : Transaction) (hour : Hour) : Except StoreError (Option HourRecord) :=
  match t.view with
  | none => .error .database
  | some table =>
    if t.base.faults.get hour.cell then .error .database
    else
      match table.get? hour.cell recordSlot with
      | none => .ok none
      | some (.text _) => .error .database
      | some (.blob bytes) =>
        match Codec.decode bytes with
        | .ok record => .ok (some record)
        | .error e => .error (.codec e)

/-- Removes the rows of an hour; says whether there were any. -/
def delete (t : Transaction) (hour : Hour) : Except StoreError Bool × Transaction :=
  if !t.writable then (.error .readOnly, t)
  else
    let next := { t.look with made := t.made + 1 }
    match t.view with
    | none => (.error .database, next)
    | some table =>
      if !table.hasUnit hour.cell then (.ok false, next)
      else if t.base.faults.delete t.made hour.cell then (.error .database, next)
      else next.write (table.deleteUnit hour.cell) true

/-- Visits the hours that have a row, up to the first at which `stop` holds. -/
def scan (t : Transaction) (stop : Hour → Bool) : Scan :=
  match t.view with
  | none => { error := some .database }
  | some table => Scan.ofUnits stop table.units

structure Ending where
  transaction : Transaction
  result : Except StoreError Unit
  /-- The durable content afterwards. -/
  database : Database
  notices : List Notice

def drop (t : Transaction) : Ending where
  transaction := t
  result := .ok ()
  database := t.durable
  notices := if t.ended then [.rollbackOnDropFailed] else []

def rollback (t : Transaction) : Ending where
  transaction := t
  result := .ok ()
  database := t.durable
  notices := if t.ended then [.rollbackFailed] else []

/-- Makes the view durable. A transaction whose commit is refused is dropped. -/
def commit (t : Transaction) : Ending :=
  if t.ended || t.base.faults.commit t.dirty then { t.drop with result := .error .database }
  else
    { transaction := t
      result := .ok ()
      database := { t.base with table := t.view, formatted := t.base.formatted || t.writable }
      notices := [.committed] }

end Transaction
end QueryTally
