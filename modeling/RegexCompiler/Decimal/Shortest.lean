/-!
# The fewest digits that identify a double

A double stands for all reals that round to it. Among the decimals in that interval those with the
fewest digits are chosen, of these the one nearest to the double itself, and of two equally near
ones the one that the tie rule names. All comparisons are made on natural numbers: the interval,
its middle and the decimal grid are brought to a common denominator.
-/

namespace RegexCompiler.Decimal

/-- A positive finite double `significand * 2 ^ exponent`. -/
structure Binary where
  significand : Nat
  exponent : Int
  /-- The next double below is half as far away as the next one above. -/
  narrowBelow : Bool

/-- The digits after the leading point and the power of ten that scales them:
`0.digits * 10 ^ point`. No trailing digit is zero. -/
structure Digits where
  digits : List Char
  point : Int

/-- Which of two equally near decimals is taken. -/
inductive Tie where
  | toEven
  | upward

/-- The number of fractions of a double, one more than the greatest. -/
def fractionBound : Nat :=
  0x10000000000000

/-- Reads sign-less bits of a finite double. -/
def Binary.ofBits (bits : Nat) : Binary :=
  let biased := bits / fractionBound % 0x800
  let fraction := bits % fractionBound
  if biased = 0 then ⟨fraction, -1074, false⟩
  else ⟨fractionBound + fraction, (biased : Int) - 1075, fraction = 0 && 1 < biased⟩

namespace Binary

/-- Numerator and denominator of `2 ^ power / 10 ^ step`. -/
def ratio (power step : Int) : Nat × Nat :=
  (Nat.pow 2 power.toNat * Nat.pow 10 (-step).toNat,
    Nat.pow 2 (-power).toNat * Nat.pow 10 step.toNat)

def decimalLength (n : Nat) : Nat :=
  (Nat.toDigits 10 n).length

/-- The least power of ten above the value. -/
def magnitude (x : Binary) : Int :=
  let (numerator, denominator) := ratio x.exponent 0
  let numerator := x.significand * numerator
  if denominator ≤ numerator then decimalLength (numerator / denominator)
  else 1 - decimalLength ((denominator - 1) / numerator)

/-- Whether `count * 10 ^ step` rounds to the value. The ends of the interval belong to it exactly
when the significand is even. -/
def admits (x : Binary) (step : Int) (count : Nat) : Bool :=
  let (numerator, denominator) := ratio (x.exponent - 2) step
  let low := (4 * x.significand - if x.narrowBelow then 1 else 2) * numerator
  let high := (4 * x.significand + 2) * numerator
  let point := count * denominator
  if x.significand % 2 = 0 then low ≤ point && point ≤ high else low < point && point < high

/-- The multiple of `10 ^ step` next to the value that rounds to it, if there is one. -/
def candidate (x : Binary) (tie : Tie) (step : Int) : Option Nat :=
  let (numerator, denominator) := ratio (x.exponent - 2) step
  let below := 4 * x.significand * numerator / denominator
  match x.admits step below, x.admits step (below + 1) with
  | false, false => none
  | true, false => some below
  | false, true => some (below + 1)
  | true, true =>
    match compare (8 * x.significand * numerator) ((2 * below + 1) * denominator), tie with
    | .lt, _ => some below
    | .gt, _ => some (below + 1)
    | .eq, .upward => some (below + 1)
    | .eq, .toEven => some (below + below % 2)

/-- The digits of `count * 10 ^ step`. -/
def digitsOf (count : Nat) (step : Int) : Digits :=
  let digits := Nat.toDigits 10 count
  ⟨(digits.reverse.dropWhile (· = '0')).reverse, digits.length + step⟩

/-- All digits of the value. -/
def exactDigits (x : Binary) : Digits :=
  let places := (-x.exponent).toNat
  digitsOf (x.significand * Nat.pow 2 x.exponent.toNat * Nat.pow 5 places) (-places)

/-- Seventeen digits identify every double, so the search on ever finer grids ends there. -/
def shortest (x : Binary) (tie : Tie) : Digits :=
  let found := (List.range 17).findSome? fun (extra : Nat) =>
    let step := x.magnitude - 1 - (extra : Int)
    (x.candidate tie step).map fun count => digitsOf count step
  found.getD x.exactDigits

end Binary

end RegexCompiler.Decimal
