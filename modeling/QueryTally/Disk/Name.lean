import QueryTally.Disk
import QueryTally.Failure

/-! # Names of files

A name is a text with slashes. It is followed one step at a time, and every step starts
from a directory: an empty step or a dot stays where it is, two dots lead one level up, and
anything else leads to the entry of that name. So a name that ends in a slash or a dot can
only mean a directory. -/

namespace QueryTally

inductive Obstacle where
  /-- A directory on the way is missing. -/
  | missing
  /-- Something on the way is no directory, or the name is one that no file can have. -/
  | barred
  deriving DecidableEq, Repr

/-- The steps of a name. -/
def nameSteps (name : String) : List String := (name.toList.splitOn '/').map String.ofList

/-- The entries and steps up on the way to the directory in which a name's last one is found. -/
def parentSteps (name : String) : List String :=
  ((nameSteps name).filter fun s => !(s = "" || s = ".")).dropLast

def hasNul (name : String) : Bool := name.toList.contains '\x00'

namespace Disk

def start (d : Disk) (name : String) : Path := if name.startsWith "/" then [] else d.here

def step (d : Disk) (here : Path) (s : String) : Except Obstacle Path :=
  match d.node here with
  | .absent => .error .missing
  | .file _ => .error .barred
  | .directory =>
    if s = "" ∨ s = "." then .ok here
    else if s = ".." then .ok here.dropLast
    else if Path.nameFits s then .ok (here ++ [s])
    else .error .barred

/-- The place to which a name leads, where something may stand or not. -/
def find (d : Disk) (name : String) : Except Obstacle Path :=
  if hasNul name then .error .barred else (nameSteps name).foldlM d.step (d.start name)

def nodeNamed (d : Disk) (name : String) : Node :=
  match d.find name with
  | .ok p => d.node p
  | .error _ => .absent

def makeWay (d : Disk) (here : Path) : List String → Except StoreError Unit × Disk
  | [] => (.ok (), d)
  | s :: rest =>
    match d.step here s with
    | .error _ => (.error .io, d)
    | .ok p =>
      match d.node p with
      | .absent => (d.set p .directory).makeWay p rest
      | .directory => d.makeWay p rest
      | .file _ => (.error .io, d)

def makeParents (d : Disk) (name : String) : Except StoreError Unit × Disk :=
  if (parentSteps name).any hasNul then (.error .io, d)
  else d.makeWay (d.start name) (parentSteps name)

def makeDirectory (d : Disk) (name : String) : Except StoreError Unit × Disk :=
  if hasNul name then (.error .io, d)
  else
    match d.makeParents name with
    | (.error e, d) => (.error e, d)
    | (.ok (), d) =>
      let steps := ((nameSteps name).reverse.dropWhile (· = "")).reverse
      match steps.foldlM d.step (d.start name) with
      | .error _ => (.error .io, d)
      | .ok p =>
        match d.node p with
        | .absent => (.ok (), d.set p .directory)
        | .directory => (.ok (), d)
        | .file _ => (.error .io, d)

def writeFile (d : Disk) (name : String) (bytes : List UInt8) : Except StoreError Unit × Disk :=
  match d.find name with
  | .error _ => (.error .io, d)
  | .ok p =>
    match d.node p with
    | .absent => (.ok (), d.make p (.bytes bytes))
    | .directory => (.error .io, d)
    | .file f => (.ok (), d.fill f (.bytes bytes))

/-- Removes regular files. A missing file is passed over; what is no regular file, or
lies below one, stops the removal. -/
def removeFiles (d : Disk) : List String → Except StoreError Unit × Disk
  | [] => (.ok (), d)
  | name :: rest =>
    match d.find name with
    | .error .missing => d.removeFiles rest
    | .error .barred => (.error .io, d)
    | .ok p =>
      match d.node p with
      | .absent => d.removeFiles rest
      | .directory => (.error .io, d)
      | .file _ => (d.set p .absent).removeFiles rest

/-- Removes a file, or a directory with all that is in it. A directory that is named by a dot
or two is emptied, but not removed. -/
def removeAll (d : Disk) (name : String) : Except StoreError Unit × Disk :=
  match d.find name with
  | .error _ => (.error .io, d)
  | .ok p =>
    match d.node p with
    | .absent => (.error .io, d)
    | .directory =>
      match (nameSteps name).filter (· ≠ "") |>.getLast? with
      | some "." | some ".." => (.error .io, (d.erase p).set p .directory)
      | _ => (.ok (), d.erase p)
    | .file _ => (.ok (), d.set p .absent)

end Disk
end QueryTally
