import QueryTally.Store.Database

/-! # The disk

A disk is a tree of directories and regular files. A file has a number besides the path
at which it stands: a connection follows the number, so it keeps a file whose path has been
taken away or given to another. -/

namespace QueryTally

/-- The names on the way from the root to a place. -/
abbrev Path := List String

namespace Path

def withSuffix : Path → String → Path
  | [], _ => []
  | [name], suffix => [name ++ suffix]
  | name :: rest, suffix => name :: withSuffix rest suffix

/-- The directories above a path, the root first. -/
def ancestors (p : Path) : List Path := (List.range p.length).map p.take

/-- Whether a directory can hold a name: names of up to 255 bytes. -/
def nameFits (name : String) : Bool := name.utf8ByteSize ≤ 255

def fits (p : Path) : Bool := p.all nameFits

end Path

abbrev FileNumber := Nat

/-- What stands at a path. -/
inductive Node where
  | absent
  | directory
  | file (number : FileNumber)
  deriving DecidableEq, Repr

namespace Node

def isDirectory : Node → Bool
  | directory => true
  | _ => false

def isFile : Node → Bool
  | file _ => true
  | _ => false

def isAbsent : Node → Bool
  | absent => true
  | _ => false

end Node

/-- What a regular file holds. -/
inductive Content where
  /-- Bytes that are no database. -/
  | bytes (bytes : List UInt8)
  | database (database : Database)

namespace Content

def isEmpty : Content → Bool
  | bytes b => b.isEmpty
  | database _ => false

def beginsWithZero : Content → Bool
  | bytes b => b.head? == some 0
  | database _ => false

/-- A file as a database. One of at most one byte counts as empty, and a longer one that
is no database cannot be read. -/
def toDatabase : Content → Database
  | bytes b => if b.length ≤ 1 then .blank else .unreadable .statement
  | database db => db

def isJunk : Content → Bool
  | bytes b => decide (1 < b.length)
  | database _ => false

end Content

/-- What a connection remembers of its file. -/
structure Memory where
  /-- Whether there was no table when it last looked. -/
  tableMissing : Bool := false
  /-- The database as it last saw it laid out: how often it had been changed, and whether it
  had a table. -/
  stamp : Option (Nat × Bool) := none
  /-- Whether it has seen the file empty since then. -/
  emptied : Bool := false
  deriving DecidableEq, Repr

/-- What stands at every path and in every file. -/
structure Disk where
  node : Path → Node
  content : FileNumber → Content
  /-- The directory in which a name begins that does not begin at the root. -/
  here : Path := []
  /-- The first number that is not in use for a file or a connection. -/
  next : Nat := 0
  /-- The connections that write to a log beside their file, with the file. -/
  logging : List (Nat × FileNumber) := []
  /-- What the connections remember. -/
  memory : Nat → Memory := fun _ => {}

namespace Disk

def empty : Disk where
  node p := if p = [] then .directory else .absent
  content _ := .bytes []

def set (d : Disk) (p : Path) (n : Node) : Disk :=
  { d with node := fun q => if q = p then n else d.node q }

def fill (d : Disk) (f : FileNumber) (c : Content) : Disk :=
  { d with content := fun g => if g = f then c else d.content g }

def make (d : Disk) (p : Path) (c : Content) : Disk :=
  { (d.set p (.file d.next)).fill d.next c with next := d.next + 1 }

/-- The disk without what stands at a path or below it. -/
def erase (d : Disk) (p : Path) : Disk :=
  { d with node := fun q => if p <+: q then .absent else d.node q }

/-- The disk without the regular file that stands at a path, if one does. -/
def unlink (d : Disk) (p : Path) : Disk := if (d.node p).isFile then d.set p .absent else d

@[simp] theorem set_node (d : Disk) (p q : Path) (n : Node) :
    (d.set p n).node q = if q = p then n else d.node q := rfl

@[simp] theorem set_content (d : Disk) (p : Path) (n : Node) :
    (d.set p n).content = d.content := rfl

@[simp] theorem fill_node (d : Disk) (f : FileNumber) (c : Content) :
    (d.fill f c).node = d.node := rfl

@[simp] theorem fill_content (d : Disk) (f g : FileNumber) (c : Content) :
    (d.fill f c).content g = if g = f then c else d.content g := rfl

def reachable (d : Disk) (p : Path) : Bool := p.ancestors.all fun q => (d.node q).isDirectory

end Disk
end QueryTally
