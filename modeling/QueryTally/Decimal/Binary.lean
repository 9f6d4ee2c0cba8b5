/-! # Floating-point numbers as exact values

A finite non-negative floating-point number is a natural number times a power of two.
What reads back as the number lies between the midpoints to its two neighbours; the
midpoints themselves do so exactly if the last bit of the number is even. -/

namespace QueryTally.Decimal

/-- The value `mantissa * 2 ^ exponent`. -/
structure Binary where
  mantissa : Nat
  exponent : Int
  /-- Whether the neighbour below is only half as far away as the one above. -/
  narrowBelow : Bool
  deriving DecidableEq, Repr

def fractionSize : Nat := Nat.pow 2 52

def Binary.ofBits (bits : UInt64) : Binary :=
  let fraction : Nat := bits.toNat % fractionSize
  let scale : Nat := bits.toNat / fractionSize % 2048
  if scale = 0 then { mantissa := fraction, exponent := -1074, narrowBelow := false }
  else
    { mantissa := fraction + fractionSize
      exponent := (scale : Int) - 1075
      narrowBelow := fraction == 0 && scale != 1 }

/-- A value and the interval of what reads back as it, all over one denominator. -/
structure Interval where
  low : Nat
  value : Nat
  high : Nat
  denominator : Nat
  /-- Whether the ends belong to the interval. -/
  closed : Bool
  deriving DecidableEq, Repr

def Binary.interval (b : Binary) : Interval :=
  let factor := Nat.pow 2 (b.exponent - 2).toNat
  { low := (4 * b.mantissa - if b.narrowBelow then 1 else 2) * factor
    value := 4 * b.mantissa * factor
    high := (4 * b.mantissa + 2) * factor
    denominator := Nat.pow 2 (2 - b.exponent).toNat
    closed := b.mantissa % 2 == 0 }

end QueryTally.Decimal
