import QueryTally.Decimal.Binary

/-! # The shortest decimal that reads back

Of all decimals that read back as a floating-point number, the one with the fewest
digits is a multiple of the highest possible power of ten; of several such multiples
the nearest to the number is taken. `Layout` says how such a decimal is written. -/

namespace QueryTally.Decimal

/-- The value `digits * 10 ^ exponent`. -/
structure Number where
  digits : Nat
  exponent : Int
  deriving DecidableEq, Repr

def scaled (n : Nat) (p : Int) : Nat × Nat := (n * Nat.pow 10 p.toNat, Nat.pow 10 (-p).toNat)

def Interval.contains (i : Interval) (n : Nat) (p : Int) : Bool :=
  let (num, den) := scaled n p
  let here := num * i.denominator
  if i.closed then i.low * den ≤ here && here ≤ i.high * den
  else i.low * den < here && here < i.high * den

/-- The multiple of `10 ^ p` that is nearest to the value of an interval; of two equally
near ones the even. -/
def Interval.nearest (i : Interval) (p : Int) : Nat :=
  let (num, den) := scaled 1 p
  let step := num * i.denominator
  let below := i.value * den / step
  let rest := i.value * den % step
  if step < 2 * rest ∨ step = 2 * rest ∧ below % 2 = 1 then below + 1 else below

/-- The shortest decimal in an interval whose power of ten is at most `p`. The search
ends after `fuel` powers. -/
def Interval.shortest (i : Interval) : Nat → Int → Number
  | 0, p => ⟨i.nearest p, p⟩
  | fuel + 1, p =>
    let n := i.nearest p
    if n ≠ 0 ∧ i.contains n p then ⟨n, p⟩ else i.shortest fuel (p - 1)

def shortest (x : Float) : Number :=
  let i := (Binary.ofBits x.toBits).interval
  let top := (Nat.toDigits 10 (i.value / i.denominator)).length
  i.shortest (top + 343) top

/-- Where a written decimal keeps its point in place. The position of the point is
counted from the first digit. -/
structure Layout where
  /-- From this position on down the number is written with an exponent. -/
  lowest : Int
  /-- The last position at which the number is written without one. -/
  highest : Int
  deriving DecidableEq, Repr

def zeros (n : Nat) : String := String.ofList (List.replicate n '0')

def Layout.write (l : Layout) (d : Number) : String :=
  let digits := Nat.toDigits 10 d.digits
  let point : Int := digits.length + d.exponent
  if 0 ≤ d.exponent ∧ point ≤ l.highest then
    String.ofList digits ++ zeros d.exponent.toNat ++ ".0"
  else if 0 < point ∧ point ≤ l.highest then
    String.ofList (digits.take point.toNat) ++ "." ++ String.ofList (digits.drop point.toNat)
  else if l.lowest < point ∧ point ≤ 0 then
    "0." ++ zeros (-point).toNat ++ String.ofList digits
  else
    let fraction := digits.drop 1
    let rest := if fraction.isEmpty then "" else "." ++ String.ofList fraction
    String.ofList (digits.take 1) ++ rest ++ s!"e{point - 1}"

end QueryTally.Decimal
