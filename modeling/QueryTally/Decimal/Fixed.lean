import QueryTally.Decimal.Binary

/-! # Decimals with fixed places

A floating-point number rounded to a number of decimal places. What is rounded is its
exact value, and a tie goes to the even neighbour. -/

namespace QueryTally.Decimal

/-- A quotient rounded to the nearest whole number, a tie to the even one. -/
def roundDiv (num den : Nat) : Nat :=
  let below := num / den
  let rest := num % den
  if den < 2 * rest ∨ den = 2 * rest ∧ below % 2 = 1 then below + 1 else below

/-- A finite non-negative number with a number of places, which is not zero. -/
def fixed (places : Nat) (x : Float) : String :=
  let i := (Binary.ofBits x.toBits).interval
  let unit := Nat.pow 10 places
  let n := roundDiv (i.value * unit) i.denominator
  let fraction := Nat.toDigits 10 (n % unit)
  toString (n / unit) ++ "." ++
    String.ofList (List.replicate (places - fraction.length) '0' ++ fraction)

end QueryTally.Decimal
