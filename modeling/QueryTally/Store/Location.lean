import QueryTally.Bytes
import QueryTally.Disk.Name
import QueryTally.Utf8

/-! # Where a database is

The database does not take every name for a path. One name means memory. A name with the
scheme `file:` is a URI: a path in which two digits after a percent sign stand for a byte,
and options after a question mark, which say among other things how the file is opened.
Any other name is a path, in which two dots take back the entry before them. -/

namespace QueryTally

inductive Access where
  /-- To write. A missing file is made. -/
  | create
  /-- To write, if it is there. -/
  | write
  /-- To read, if it is there. -/
  | read
  deriving DecidableEq, Repr

/-- Whether somebody who may open a file in one way may open it in another. -/
def Access.allows : Access → Access → Bool
  | .create, _ | .write, .write | .write, .read | .read, .read => true
  | .write, .create | .read, .create | .read, .write => false

inductive Location where
  | memory
  | file (name : String) (access : Access)
  deriving DecidableEq, Repr

namespace Location

def scheme : List Char := "file:".toList

def memoryName : String := ":memory:"

def hexDigit? (c : Char) : Option Nat :=
  if '0' ≤ c ∧ c ≤ '9' then some (c.toNat - '0'.toNat)
  else if 'a' ≤ c ∧ c ≤ 'f' then some (c.toNat - 'a'.toNat + 10)
  else if 'A' ≤ c ∧ c ≤ 'F' then some (c.toNat - 'A'.toNat + 10)
  else none

/-- The byte for which a percent sign stands that is followed by these characters. -/
def escaped? : List Char → Option UInt8
  | a :: b :: _ => do return UInt8.ofNat (16 * (← hexDigit? a) + (← hexDigit? b))
  | _ => none

/-- The bytes of a part of a URI. A zero byte ends the part. -/
def unescape : List Char → List UInt8
  | [] => []
  | '%' :: a :: b :: rest =>
    match escaped? [a, b] with
    | some byte => if byte = 0 then [] else byte :: unescape rest
    | none => Utf8.encode "%" ++ unescape (a :: b :: rest)
  | c :: rest => Utf8.encode c.toString ++ unescape rest

/-- The text of a part of a URI. Bytes that are no text are taken for a character each. -/
def text (cs : List Char) : String :=
  let bytes := unescape cs
  (String.fromUTF8? bytes.toByteArray).getD
    (String.ofList (bytes.map fun b => Char.ofNat b.toNat))

/-- An option of a URI, with the empty value if none is given. -/
def option (cs : List Char) : String × String :=
  (text (cs.takeWhile (· != '=')), text ((cs.dropWhile (· != '=')).drop 1))

def options (cs : List Char) : List (String × String) := (cs.splitOn '&').map option

/-- Whether the value of an option says yes. A number does unless its last byte is zero or it
is too large. -/
def isYes (value : String) : Bool :=
  let digits := value.toList.takeWhile Char.isDigit
  if digits.isEmpty then ["on", "yes", "true"].contains value.toLower
  else
    let n := digits.foldl (fun n c => 10 * n + (c.toNat - '0'.toNat)) 0
    n < 2147483648 && n % 256 != 0

inductive Keeper where
  | disk
  | memory
  deriving DecidableEq, Repr

/-- The keeper with a name. The ones of the disk differ in the locks that they take. -/
def Keeper.ofName? (name : String) : Option Keeper :=
  if ["unix", "unix-none", "unix-dotfile", "unix-excl"].contains name then some .disk
  else if name = "memdb" then some .memory
  else none

structure Wish where
  /-- How to open the file, or nothing for a database in memory. -/
  access : Option Access := some .create
  /-- What keeps the file, if that is known. -/
  keeper : Option Keeper := some .disk
  /-- Whether nobody changes the file, so that it is only read; nothing if not said yet. -/
  immutable : Option Bool := none
  deriving DecidableEq, Repr

/-- Asks for a way to open the file. What was given up before is not given again, unless the
database was in memory meanwhile. -/
def Wish.grant (w : Wish) (new : Access) : Option Wish :=
  if w.access.all (·.allows new) then some { w with access := some new } else none

/-- Adds an option. One that is not known counts for nothing, and one that is known needs a
value that is known. -/
def Wish.add (w : Wish) (option : String × String) : Option Wish :=
  match option.1 with
  | "mode" =>
    match option.2 with
    | "rwc" => w.grant .create
    | "rw" => w.grant .write
    | "ro" => w.grant .read
    | "memory" => some { w with access := none }
    | _ => none
  | "cache" => if ["shared", "private"].contains option.2 then some w else none
  | "vfs" => some { w with keeper := Keeper.ofName? option.2 }
  | "immutable" => some { w with immutable := w.immutable.or (some (isYes option.2)) }
  | _ => some w

/-- The location of a file with a name, opened as the options ask for. A file in memory is of
no use if it is only read. -/
def Wish.location (w : Wish) (name : String) : Option Location := do
  let keeper ← w.keeper
  match w.access with
  | none => return .memory
  | some access =>
    if keeper = .memory ∨ name = "" ∨ name = memoryName then
      if access = .read then none else return .memory
    else return .file name (if w.immutable = some true then .read else access)

/-- The location that a URI gives after its scheme. Only this host can be named. -/
def ofUri? (cs : List Char) : Option Location := do
  let path ← match cs with
    | '/' :: '/' :: rest =>
      if ["", "localhost"].contains (String.ofList (rest.takeWhile (· != '/')))
      then some (rest.dropWhile (· != '/'))
      else none
    | _ => some cs
  let beforeFragment := path.takeWhile (· != '#')
  let wish ← (options ((beforeFragment.dropWhile (· != '?')).drop 1)).foldlM Wish.add {}
  wish.location (text (beforeFragment.takeWhile (· != '?')))

def ofName? (name : String) : Option Location :=
  if hasNul name then none
  else if name = memoryName then some .memory
  else if scheme <+: name.toList then ofUri? (name.toList.drop scheme.length)
  else some (.file name .create)

end Location

/-- The place to which the database takes a name. -/
def Disk.locate (d : Disk) (name : String) : Option Path :=
  (nameSteps name).foldlM (fun here s =>
    if s = "" ∨ s = "." then some here
    else if s = ".." then some here.dropLast
    else if Path.nameFits s ∧ !(d.node here).isFile then some (here ++ [s])
    else none) (d.start name)

end QueryTally
