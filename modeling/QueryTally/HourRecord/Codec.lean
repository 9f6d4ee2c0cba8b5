import QueryTally.HourRecord
import QueryTally.Bytes
import QueryTally.Utf8

/-! # The bytes of a record

Every number and every length is eight bytes, least significant first. A text is its
length in bytes and its bytes, a list its length and its items, a record its fields
in order. Reading takes what it needs from the front and leaves the rest, so a record
is read whatever follows it; `DecodeError` says where bytes that hold no record end. -/

namespace QueryTally

inductive DecodeError where
  /-- The bytes end before or inside a number or a length. -/
  | endOfInput
  /-- A text is announced as longer than what is left. -/
  | textTooLong
  /-- The bytes of a text are not UTF-8. -/
  | malformedText (fault : Utf8.Malformed)
  deriving DecidableEq, Repr

def DecodeError.message : DecodeError → String
  | .endOfInput => "io error: unexpected end of file"
  | .textTooLong => "io error: "
  | .malformedText fault => "string is not valid utf8: " ++ fault.message

namespace Codec

def encodeWord (n : Nat) : List UInt8 := Bytes.littleEndian 8 n

def encodeText (s : String) : List UInt8 :=
  let bytes := Utf8.encode s
  encodeWord bytes.length ++ bytes

def encodeList {α : Type} (item : α → List UInt8) (xs : List α) : List UInt8 :=
  encodeWord xs.length ++ xs.flatMap item

def encodePair (p : CountPair) : List UInt8 := encodeText p.name ++ encodeWord p.count.toNat

def encode (r : HourRecord) : List UInt8 :=
  encodeWord r.total.toNat ++ encodeList (fun n => encodeWord n.toNat) r.results ++
    encodeList encodePair r.domains ++ encodeList encodePair r.blockedDomains ++
    encodeList encodePair r.clients ++ encodeWord r.meanMicros.toNat

/-- Reads a value from the front of some bytes and gives it with the bytes after it. -/
abbrev Decoder (α : Type) := List UInt8 → Except DecodeError (α × List UInt8)

def word : Decoder UInt64 := fun bytes =>
  let front := bytes.take 8
  if front.length = 8 then .ok (UInt64.ofNat (Bytes.ofLittleEndian front), bytes.drop 8)
  else .error .endOfInput

def text : Decoder String := fun bytes => do
  let (length, bytes) ← word bytes
  let front := bytes.take length.toNat
  if front.length = length.toNat then
    match Utf8.decode front with
    | .ok s => .ok (s, bytes.drop length.toNat)
    | .error fault => .error (.malformedText fault)
  else .error .textTooLong

def items {α : Type} (item : Decoder α) : Nat → Decoder (List α)
  | 0, bytes => .ok ([], bytes)
  | n + 1, bytes => do
    let (x, bytes) ← item bytes
    let (xs, bytes) ← items item n bytes
    return (x :: xs, bytes)

def list {α : Type} (item : Decoder α) : Decoder (List α) := fun bytes => do
  let (length, bytes) ← word bytes
  items item length.toNat bytes

def pair : Decoder CountPair := fun bytes => do
  let (name, bytes) ← text bytes
  let (count, bytes) ← word bytes
  return (⟨name, count⟩, bytes)

def record : Decoder HourRecord := fun bytes => do
  let (total, bytes) ← word bytes
  let (results, bytes) ← list word bytes
  let (domains, bytes) ← list pair bytes
  let (blockedDomains, bytes) ← list pair bytes
  let (clients, bytes) ← list pair bytes
  let (meanMicros, bytes) ← word bytes
  return ({ total, results, domains, blockedDomains, clients, meanMicros }, bytes)

/-- The record at the front of some bytes. -/
def decode (bytes : List UInt8) : Except DecodeError HourRecord := (·.1) <$> record bytes

end Codec
end QueryTally
