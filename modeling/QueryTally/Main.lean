import QueryTally.Viewer
import QueryTally.Store.Image
import Std.Time.DateTime.Timestamp

/-! # The viewer as a program

Looks at the places on the disk that a run of the viewer can touch, runs it, prints
what it has to say and writes back what it changed. -/

namespace QueryTally.Viewer

def usageText : String :=
  "Usage: viewer [--db DB] [--days DAYS] show [--unit UNIT] [--format FORMAT] | info | reset"

def nameOf (p : Path) : String := "/" ++ "/".intercalate p

def placesOn (start : Path) (name : String) : List Path :=
  let go (visited : List Path × Path) (s : String) : List Path × Path :=
    let next :=
      if s = "" ∨ s = "." then visited.2
      else if s = ".." then visited.2.dropLast
      else visited.2 ++ [s]
    (visited.1 ++ [next], next)
  ((nameSteps name).foldl go ([], start)).1

/-- The places that matter to a database of a name: the ways to it and to its companions. -/
def places (disk : Disk) (name : String) : List Path :=
  let start := disk.start name
  let names := companions.map (name ++ ·)
  let own := match Location.ofName? name with
    | some (.file own _) =>
      let place := disk.locate own
      placesOn (disk.start own) own ++ (place.map fun p => companions.map p.withSuffix).getD []
    | _ => []
  (start.ancestors ++ [start] ++ names.flatMap (placesOn start) ++ own).eraseDups

def lookAt (disk : Disk) (p : Path) : IO Disk := do
  try
    let bytes ← IO.FS.readBinFile (nameOf p)
    return disk.make p (Image.decode bytes.toList)
  catch
    | .noFileOrDirectory .. => return disk
    | _ => return disk.set p .directory

def survey (disk : Disk) (ps : List Path) : IO Disk := do
  let mut disk := disk
  for p in ps do
    if disk.reachable p then disk ← lookAt disk p
  return disk

def update (p : Path) (before after : Disk) : IO Unit := do
  match before.node p, after.node p with
  | .absent, .directory => IO.FS.createDirAll (nameOf p)
  | .file _, .absent => IO.FS.removeFile (nameOf p)
  | old, .file f =>
    match after.content f with
    | .database db => IO.FS.writeBinFile (nameOf p) (Image.encode (.database db)).toByteArray
    | .bytes b => if old ≠ .file f then IO.FS.writeBinFile (nameOf p) b.toByteArray
  | _, _ => return ()

def presentHour : IO Hour := do
  let now ← Std.Time.Timestamp.now
  return Int64.ofInt (now.toSecondsSinceUnixEpoch.val / 3600)

def runOnDisk (a : Arguments) : IO UInt32 := do
  let here := (nameSteps (← IO.currentDir).toString).filter (· ≠ "")
  let blank : Disk := { Disk.empty with here }
  let ps := places blank a.path
  let disk ← survey blank ps
  let exit := runWith a (← presentHour) disk
  for p in ps do
    update p disk exit.disk
  for line in exit.lines do
    IO.println line
  if let some e := exit.error then
    IO.eprintln s!"Error: {errorText e}"
  return UInt32.ofNat exit.code

end QueryTally.Viewer

def main (arguments : List String) : IO UInt32 := do
  match QueryTally.Viewer.readArguments arguments with
  | .ok a => QueryTally.Viewer.runOnDisk a
  | .error .help =>
    IO.println QueryTally.Viewer.usageText
    return 0
  | .error .usage =>
    IO.eprintln QueryTally.Viewer.usageText
    return 2
