/-
  Fixed decimal places.

  The exact value of the number, not its shortest decimal, is rounded to the asked number of places; a value
  half way between two of them goes to the even one.  The sign is kept even where all digits are zero.
-/
import Simplex.Decimal.Binary
import Simplex.Decimal.Positional

namespace Simplex.Decimal

/-! ## Rounding a fraction -/

/-- `n / d` rounded to a natural number, a half to the even neighbour. -/
def roundToEven (n d : Nat) : Nat :=
  let q := n / d
  let twice := 2 * (n % d)
  if twice < d then q
  else if d < twice then q + 1
  else if q % 2 = 0 then q else q + 1

/-! ## The text -/

/-- How many units of `10^-places` are nearest to `x`. -/
def Finite.units (x : Finite) (places : Nat) : Nat :=
  roundToEven (x.numerator * Nat.pow 10 places) x.denominator

/-- The text of a number with `places` digits behind the point. -/
def Binary.fixedText (places : Nat) : Binary → String
  | .nan => "NaN"
  | .infinite negative => signed negative "inf".toList
  | .finite negative x => signed negative (withPlaces (x.units places) places)

example : (Format.binary64.decode 0x3FC0000000000000).fixedText 2 = "0.12" := by decide +kernel
example : (Format.binary64.decode 0xBF50624DD2F1A9FC).fixedText 2 = "-0.00" := by decide +kernel
example : (Format.binary64.decode 0x4004000000000000).fixedText 0 = "2" := by decide +kernel

end Simplex.Decimal
