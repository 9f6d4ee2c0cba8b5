/-! # Where bytes stop being text

Bytes that are not UTF-8 are refused with the place of the first fault. Either the
bytes end inside a character, or some bytes cannot start one; then the fault is as
long as the longest beginning of a character that stands there, at least one byte. -/

namespace QueryTally.Utf8

structure Malformed where
  /-- The number of bytes before it, which are whole characters. -/
  index : Nat
  /-- The number of bytes that cannot start a character, or nothing if the bytes end
  inside one. -/
  length : Option Nat
  deriving DecidableEq, Repr

def Malformed.message (m : Malformed) : String :=
  match m.length with
  | some n => s!"invalid utf-8 sequence of {n} bytes from index {m.index}"
  | none => s!"incomplete utf-8 byte sequence from index {m.index}"

/-- The bytes that may follow inside a character, where nothing narrows them. -/
def continuation : UInt8 × UInt8 := (0x80, 0xBF)

/-- The ranges of the bytes that complete a character with this first byte. -/
def followers (b : UInt8) : Option (List (UInt8 × UInt8)) :=
  if b < 0x80 then some []
  else if b < 0xC2 then none
  else if b < 0xE0 then some [continuation]
  else if b = 0xE0 then some [(0xA0, 0xBF), continuation]
  else if b = 0xED then some [(0x80, 0x9F), continuation]
  else if b < 0xF0 then some [continuation, continuation]
  else if b = 0xF0 then some [(0x90, 0xBF), continuation, continuation]
  else if b < 0xF4 then some [continuation, continuation, continuation]
  else if b = 0xF4 then some [(0x80, 0x8F), continuation, continuation]
  else none

/-- What stands at the front of some bytes. -/
inductive Front where
  /-- A character, with the number of bytes after its first. -/
  | whole (more : Nat)
  /-- Bytes that cannot start a character. -/
  | bad (length : Nat)
  /-- The beginning of a character, and then nothing. -/
  | cut
  deriving DecidableEq, Repr

/-- Reads bytes of the given ranges, `read` bytes after the first having been read. -/
def follow (read : Nat) : List (UInt8 × UInt8) → List UInt8 → Front
  | [], _ => .whole read
  | _ :: _, [] => .cut
  | r :: rs, b :: bs => if r.1 ≤ b ∧ b ≤ r.2 then follow (read + 1) rs bs else .bad (read + 1)

def front (b : UInt8) (bs : List UInt8) : Front :=
  match followers b with
  | some ranges => follow 0 ranges bs
  | none => .bad 1

/-- The first fault of some bytes, which stand `index` bytes after the beginning. -/
def fault? (index : Nat) : List UInt8 → Option Malformed
  | [] => none
  | b :: bs =>
    match front b bs with
    | .whole more => fault? (index + 1 + more) (bs.drop more)
    | .bad length => some ⟨index, some length⟩
    | .cut => some ⟨index, none⟩
termination_by bs => bs.length
decreasing_by simp only [List.length_drop, List.length_cons]; omega

/-- Bytes read as text; what is no text is refused with its first fault. -/
def decode (bytes : List UInt8) : Except Malformed String :=
  match String.fromUTF8? bytes.toByteArray with
  | some s => .ok s
  | none => .error ((fault? 0 bytes).getD ⟨0, none⟩)

def encode (s : String) : List UInt8 := s.toByteArray.data.toList

end QueryTally.Utf8
