import QueryTally.Hour
import QueryTally.Store.Table

/-! # Databases

A database is a table and what it refuses. `Faults` says which requests fail; in a
healthy database (the default) none does. The table may be missing or unreadable, and
then everything that needs it fails. -/

namespace QueryTally

/-- What becomes of a statement that the database refuses. -/
inductive Refusal where
  /-- The statement has no effect and the transaction goes on. -/
  | statement
  /-- The transaction is rolled back and is over. -/
  | transaction
  deriving DecidableEq, Repr

structure Faults where
  /-- Whether a transaction that may write (or may only read) is refused. -/
  begin : Bool → Bool := fun _ => false
  /-- What becomes of a put of a unit, if it is refused. The number is that of the puts and
  deletes that the transaction was asked for before. -/
  put : Nat → Cell → Option Refusal := fun _ _ => none
  /-- Whether deleting the rows of a unit is refused. The number is as for a put. -/
  delete : Nat → Cell → Bool := fun _ _ => false
  /-- Whether reading the record of a unit is refused. -/
  get : Cell → Bool := fun _ => false
  /-- Whether a commit is refused, given whether a row was put or deleted before it. -/
  commit : Bool → Bool := fun _ => false
  /-- Whether the content can no longer be changed. A put of what is there changes nothing. -/
  frozen : Bool := false
  /-- Whether a transaction is over when it finds that the table cannot be read. -/
  readEnds : Bool := false

/-- The content of a database: its table, unless that is missing or unreadable, and
what it refuses. -/
structure Database where
  table : Option Table
  faults : Faults := {}
  /-- Whether it has been laid out in its file. Only an empty file is one where it has not. -/
  formatted : Bool := true
  /-- How often it has been changed since then. -/
  changes : Nat := 0

def Hour.cell (h : Hour) : Cell := .blob h.key

def recordSlot : Cell := .blob [0]

def Database.blank : Database := { table := none, formatted := false }

/-- A database that refuses every transaction that may write. -/
def Database.sealed (db : Database) : Database :=
  { db with faults := { db.faults with begin := id } }

/-- A database into which nobody can look, and what becomes of an attempt. -/
def Database.unreadable (refusal : Refusal) : Database :=
  { table := none, faults := { begin := id, readEnds := refusal = .transaction } }

/-- A database whose content can no longer be changed. -/
def Database.freeze (db : Database) : Database :=
  { db with faults := { db.faults with frozen := true } }

def Database.readOnly (db : Database) : Database :=
  { db with faults :=
    { db.faults with put := fun _ _ => some .statement, delete := fun _ _ => true } }

end QueryTally
