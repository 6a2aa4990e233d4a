import RegexCompiler.Decimal.Shortest

/-!
# Writing doubles

A style says how the shortest digits of a double are laid out: up to which sizes the point is set
among the digits, what a whole number looks like, and what is written for the values that are not
finite.
-/

namespace RegexCompiler.Decimal

structure Style where
  tie : Tie
  /-- Whether a number of this decimal exponent is written without a power of ten. -/
  positional : Int → Bool
  /-- What follows a whole number that is written without a power of ten. -/
  wholeEnding : String
  nan : String
  infinity : String
  negativeInfinity : String

namespace Style

def zeros (n : Nat) : List Char :=
  List.replicate n '0'

/-- The digits with the point set among them. -/
def layPositional (style : Style) (d : Digits) : String :=
  if d.point ≤ 0 then "0." ++ String.ofList (zeros (-d.point).toNat ++ d.digits)
  else
    let whole := d.point.toNat
    if d.digits.length ≤ whole then
      String.ofList (d.digits ++ zeros (whole - d.digits.length)) ++ style.wholeEnding
    else String.ofList (d.digits.take whole ++ '.' :: d.digits.drop whole)

/-- One digit before the point, and a signed power of ten. -/
def layScientific (d : Digits) : String :=
  let exponent := d.point - 1
  let fraction := if d.digits.length ≤ 1 then [] else '.' :: d.digits.drop 1
  let sign := if exponent < 0 then "e-" else "e+"
  String.ofList (d.digits.take 1 ++ fraction) ++ sign ++ toString exponent.natAbs

def signBit : Nat :=
  0x8000000000000000

/-- The bits of infinity; greater ones stand for no number. -/
def infinityBits : Nat :=
  0x7FF0000000000000

/-- The text of the double with the given bits. -/
def writeBits (style : Style) (bits : Nat) : String :=
  let negative := signBit ≤ bits
  let size := bits % signBit
  let sign := if negative then "-" else ""
  if size = 0 then sign ++ "0" ++ style.wholeEnding
  else if size = infinityBits then if negative then style.negativeInfinity else style.infinity
  else if infinityBits < size then style.nan
  else
    let d := (Binary.ofBits size).shortest style.tie
    sign ++ if style.positional (d.point - 1) then style.layPositional d else layScientific d

def write (style : Style) (x : Float) : String :=
  style.writeBits x.toBits.toNat

end Style

/-- Every number is written out in full, and a whole number has no point. -/
def plain : Style where
  tie := .upward
  positional _ := true
  wholeEnding := ""
  nan := "NaN"
  infinity := "inf"
  negativeInfinity := "-inf"

/-- A whole number ends in `.0`, numbers from a hundred-thousandth to below ten quadrillions are
written out, and what is not finite is null. -/
def interchange : Style where
  tie := .toEven
  positional exponent := -5 ≤ exponent && exponent < 16
  wholeEnding := ".0"
  nan := "null"
  infinity := "null"
  negativeInfinity := "null"

end RegexCompiler.Decimal
