import QueryTally.Bytes

/-! # Client addresses

A client is known by the text of its address. Four bytes are four decimal numbers
with dots between them. Sixteen bytes are eight hexadecimal groups with colons
between them, of which the longest run of two or more zero groups (the first of
equally long ones) is left out as `::`; an address that embeds a four-byte one is
`::ffff:` and the text of that. No other length is an address. -/

namespace QueryTally.Address

def dotted (bytes : List UInt8) : String :=
  ".".intercalate (bytes.map fun b => toString b.toNat)

/-- A group in lower-case hexadecimal without leading zeros. -/
def groupText (n : Nat) : String := String.ofList (Nat.toDigits 16 n)

def colons (gs : List Nat) : String := ":".intercalate (gs.map groupText)

/-- The 16-bit groups that pairs of bytes form, most significant byte first. -/
def groups : List UInt8 → List Nat
  | a :: b :: rest => (a.toNat * 256 + b.toNat) :: groups rest
  | _ => []

def leadingZeros (gs : List Nat) : Nat := (gs.takeWhile (· == 0)).length

/-- Start and length of the longest run of zero groups, the first of equally long ones. -/
def longestZeroRun (gs : List Nat) : Nat × Nat :=
  (List.range gs.length).foldl (fun best i =>
    let length := leadingZeros (gs.drop i)
    if best.2 < length then (i, length) else best) (0, 0)

/-- Groups with colons, the longest run of at least two zero groups left out. -/
def compressed (gs : List Nat) : String :=
  let (start, length) := longestZeroRun gs
  if length < 2 then colons gs
  else colons (gs.take start) ++ "::" ++ colons (gs.drop (start + length))

/-- The bytes that announce an embedded four-byte address. -/
def mappedMark : List UInt8 := List.replicate 10 0 ++ [255, 255]

def sixteen (bytes : List UInt8) : String :=
  if mappedMark <+: bytes then "::ffff:" ++ dotted (bytes.drop 12)
  else compressed (groups bytes)

/-- The text of an address; bytes of any other number than four or sixteen are none. -/
def text? (bytes : List UInt8) : Option String :=
  if bytes.length = 4 then some (dotted bytes)
  else if bytes.length = 16 then some (sixteen bytes)
  else none

theorem text?_isSome_iff {bytes : List UInt8} :
    (text? bytes).isSome ↔ bytes.length = 4 ∨ bytes.length = 16 := by
  unfold text?
  split
  · simp_all
  · split <;> simp_all

end QueryTally.Address
