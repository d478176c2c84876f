/-
  Binary floating point numbers read as exact fractions.

  A bit pattern of a binary interchange format is a sign, an exponent field and a fraction field.
  `Format.decode` turns it into one of three things: not a number, an infinity, or `significand · 2^exponent`
  with a sign.  All that the decimal writers need is kept exactly:

  1. the value as a fraction of natural numbers (`Finite.numerator`, `Finite.denominator`);
  2. the interval of reals that round to it (`Finite.readsBack`): half a gap to each neighbour, where the gap
     below the least significand of a binade is only half as wide, the ends included for an even
     significand because a tie is rounded to even.

  Everything is computed in units of `2^(exponent - 2)`, a quarter of the gap, so that both half gaps are
  whole numbers of units.
-/

namespace Simplex.Decimal

/-! ## Formats and decoded values -/

/-- The field widths of a binary interchange format. -/
structure Format where
  fractionBits : Nat
  exponentBits : Nat

/-- Double precision. -/
def Format.binary64 : Format := ⟨52, 11⟩

/-- Single precision. -/
def Format.binary32 : Format := ⟨23, 8⟩

/-- The magnitude `significand · 2^exponent` of a finite number. -/
structure Finite where
  significand : Nat
  exponent : Int
  /-- Is the next smaller number of the format only half a gap away? -/
  narrowBelow : Bool
  deriving DecidableEq, Repr

/-- What a bit pattern stands for. -/
inductive Binary where
  | nan
  | infinite (negative : Bool)
  | finite (negative : Bool) (magnitude : Finite)
  deriving DecidableEq, Repr

/-- The exponent that belongs to the lowest binade, shared by the numbers below it. -/
def Format.leastExponent (format : Format) : Int :=
  2 - (Nat.pow 2 (format.exponentBits - 1) : Nat) - format.fractionBits

/-- Read a bit pattern.  The highest exponent field is kept for infinities and for what is not a number;
    the lowest one has no implicit leading bit. -/
def Format.decode (format : Format) (bits : Nat) : Binary :=
  let fraction := bits % Nat.pow 2 format.fractionBits
  let field := bits / Nat.pow 2 format.fractionBits % Nat.pow 2 format.exponentBits
  let negative := bits / Nat.pow 2 (format.fractionBits + format.exponentBits) % 2 == 1
  if field + 1 = Nat.pow 2 format.exponentBits then
    if fraction = 0 then .infinite negative else .nan
  else if field = 0 then
    .finite negative ⟨fraction, format.leastExponent, false⟩
  else
    .finite negative
      ⟨Nat.pow 2 format.fractionBits + fraction, format.leastExponent + (field - 1 : Nat),
        fraction == 0 && 1 < field⟩

namespace Finite

/-! ## The value and its interval, in quarter gaps -/

/-- A quarter gap `2^(exponent - 2)` is `unitNumerator / unitDenominator`. -/
def unitNumerator (x : Finite) : Nat := Nat.pow 2 (x.exponent - 2).toNat

/-- A quarter gap `2^(exponent - 2)` is `unitNumerator / unitDenominator`. -/
def unitDenominator (x : Finite) : Nat := Nat.pow 2 (2 - x.exponent).toNat

/-- The value is `numerator / denominator`. -/
def numerator (x : Finite) : Nat := 4 * x.significand * x.unitNumerator

/-- The value is `numerator / denominator`. -/
def denominator (x : Finite) : Nat := x.unitDenominator

/-- The lower end of the interval of reals that round to `x`, over the same denominator. -/
def lowerEnd (x : Finite) : Nat :=
  (4 * x.significand - if x.narrowBelow then 1 else 2) * x.unitNumerator

/-- The upper end of the interval of reals that round to `x`, over the same denominator. -/
def upperEnd (x : Finite) : Nat := (4 * x.significand + 2) * x.unitNumerator

/-- Does `n / d` round to `x`?  The ends belong to an even significand. -/
def readsBack (x : Finite) (n d : Nat) : Bool :=
  if x.significand % 2 = 0 then
    x.lowerEnd * d ≤ n * x.denominator && n * x.denominator ≤ x.upperEnd * d
  else
    x.lowerEnd * d < n * x.denominator && n * x.denominator < x.upperEnd * d

end Finite

example : Format.binary64.decode 0x3FF0000000000000 =
    .finite false ⟨2 ^ 52, -52, true⟩ := by decide
example : Format.binary64.decode 1 = .finite false ⟨1, -1074, false⟩ := by decide
example : Format.binary32.decode 0xFF800000 = .infinite true := by decide

end Simplex.Decimal
