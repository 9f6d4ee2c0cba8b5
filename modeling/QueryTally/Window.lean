import QueryTally.Hour
import QueryTally.HourRecord

/-! # The retention window

A query looks at the hours of a window: `limit` hours that end with the present one.
Stored records fill the hours before the present one, and the live hour, whichever it
is, takes the slot of its own number. A live hour outside the window is left out. -/

namespace QueryTally

/-- The first of the `limit` hours that end with `now`. -/
def Hour.windowStart (now : Hour) (limit : UInt32) : Checked Hour := do
  let before ← now.minus (Hour.ofCount limit.toNat)
  before.plus 1

/-- Consecutive hours with a record for each. -/
structure Window where
  first : Hour
  records : List HourRecord
  deriving DecidableEq, Repr

namespace Window

/-- The slot of the live hour in a window from `first` to `last` that has `size` slots. -/
def slot? (first last : Hour) (size : Nat) (live : Hour) : Checked (Option Nat) := do
  let offset ← live.minus first
  return if first ≤ live ∧ live ≤ last ∧ offset.toInt.toNat < size
    then some offset.toInt.toNat else none

/-- The slots before the live hour takes its own: those of the stored records, and an
empty one for the present hour. -/
def slots (first last : Hour) (stored : List HourRecord) : List HourRecord :=
  if first ≤ last then stored ++ [HourRecord.empty] else stored

/-- The window from `first` to `last`, given the stored records of the hours before
`last` and the live hour with its record. -/
def assemble (first last : Hour) (stored : List HourRecord)
    (live : Option (Hour × HourRecord)) : Checked Window :=
  let records := slots first last stored
  match live with
  | none => .ok { first, records }
  | some (hour, record) => do
    match ← slot? first last records.length hour with
    | some i => return { first, records := records.set i record }
    | none => return { first, records }

def excludes (first last : Hour) (stored : List HourRecord) (live : Hour) : Bool :=
  match slot? first last (slots first last stored).length live with
  | .ok none => true
  | _ => false

def size (w : Window) : Nat := w.records.length

def hours (w : Window) : Checked (List Hour) :=
  (List.range w.size).mapM fun i => w.first.plus (Hour.ofCount i)

end Window
end QueryTally
