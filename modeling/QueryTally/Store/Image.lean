import QueryTally.Disk
import QueryTally.HourRecord.Codec

/-! # Database files

The form in which a database stands in a file: a mark, then the rows of its table, or
nothing if it has no table. What begins otherwise, or has anything but whole rows after
the mark, is no database. -/

namespace QueryTally.Image

/-- The bytes with which a database file begins. -/
def mark : List UInt8 := Utf8.encode "query tally 1\n"

def encodeCell : Cell → List UInt8
  | .text s => 0 :: Codec.encodeText s
  | .blob bytes => 1 :: (Codec.encodeWord bytes.length ++ bytes)

def encodeRow (r : Row) : List UInt8 :=
  encodeCell r.unit ++ encodeCell r.slot ++ encodeCell r.value

def encode : Content → List UInt8
  | .bytes b => b
  | .database db => mark ++ match db.table with
    | some table => Codec.encodeList encodeRow table.rows
    | none => []

/-- Reads bytes that are preceded by their number. -/
def blob : Codec.Decoder (List UInt8) := fun bytes => do
  let (length, bytes) ← Codec.word bytes
  let front := bytes.take length.toNat
  if front.length = length.toNat then .ok (front, bytes.drop length.toNat)
  else .error .endOfInput

def cell : Codec.Decoder Cell
  | [] => .error .endOfInput
  | kind :: bytes => do
    if kind = 0 then
      let (s, bytes) ← Codec.text bytes
      return (.text s, bytes)
    else
      let (front, bytes) ← blob bytes
      return (.blob front, bytes)

def row : Codec.Decoder Row := fun bytes => do
  let (unit, bytes) ← cell bytes
  let (slot, bytes) ← cell bytes
  let (value, bytes) ← cell bytes
  return ({ unit, slot, value }, bytes)

def decode (bytes : List UInt8) : Content :=
  if bytes = mark then .database { table := none }
  else if mark <+: bytes then
    match Codec.list row (bytes.drop mark.length) with
    | .ok (rows, []) => .database { table := some (rows.foldl Table.put Table.empty) }
    | _ => .bytes bytes
  else .bytes bytes

end QueryTally.Image
