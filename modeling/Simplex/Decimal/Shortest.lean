/-
  The shortest decimal that reads back.

  For one digit, two digits, and so on, the grid of decimals with that many significant digits around the
  value is tried: only the two grid points next to the value can be closest to it, so those two are tested
  against the interval of reals that round to it.  The first grid with a hit wins.

  1. If both neighbours read back, the nearer one is taken, and the upper one of two that are equally near.
  2. Seventeen digits always suffice for double precision (and nine for single precision), so the search is
     cut off there and falls back to its last grid.
  3. Zeros at the end of the digits found are moved into the exponent, so no digit is wasted.

  All comparisons are between products of natural numbers: nothing is rounded on the way.
-/
import Simplex.Decimal.Binary
import Simplex.Decimal.Positional

namespace Simplex.Decimal

/-- The decimal `digits · 10^exponent`. -/
structure Scientific where
  digits : Nat
  exponent : Int
  deriving DecidableEq, Repr

namespace Scientific

/-- The numerator of `digits · 10^exponent` as a fraction. -/
def numerator (s : Scientific) : Nat := s.digits * Nat.pow 10 s.exponent.toNat

/-- The denominator of `digits · 10^exponent` as a fraction. -/
def denominator (s : Scientific) : Nat := Nat.pow 10 (-s.exponent).toNat

/-- Move zeros at the end of the digits into the exponent, at most `most` of them. -/
def trimZeros : (most : Nat) → Scientific → Scientific
  | 0, s => s
  | most + 1, s =>
    if s.digits ≠ 0 ∧ s.digits % 10 = 0 then trimZeros most ⟨s.digits / 10, s.exponent + 1⟩ else s

/-- Every digit of `s` in positional notation. -/
def written (s : Scientific) : List Char := scaled s.digits s.exponent

end Scientific

namespace Finite

/-! ## The grids around a value -/

/-- The `k` with `10^(k-1) ≤ x < 10^k`, for `x` above zero. -/
def magnitude (x : Finite) : Int :=
  if x.denominator ≤ x.numerator then digitCount (x.numerator / x.denominator)
  else 1 - (digitCount ((x.denominator - 1) / x.numerator) : Int)

/-- The last decimal with exponent `g` that is not above `x`. -/
def below (x : Finite) (g : Int) : Scientific :=
  ⟨x.numerator * Nat.pow 10 (-g).toNat / (x.denominator * Nat.pow 10 g.toNat), g⟩

/-- The first decimal with exponent `g` that is above `x`. -/
def above (x : Finite) (g : Int) : Scientific := ⟨(x.below g).digits + 1, g⟩

/-- Is `x` at least as near to its upper neighbour with exponent `g` as to the lower one? -/
def upperIsNearer (x : Finite) (g : Int) : Bool :=
  (2 * (x.below g).digits + 1) * (Nat.pow 10 g.toNat * x.denominator) ≤
    2 * (x.numerator * Nat.pow 10 (-g).toNat)

/-- Does the decimal round to `x`? -/
def accepts (x : Finite) (s : Scientific) : Bool := x.readsBack s.numerator s.denominator

/-- The neighbour of `x` with exponent `g` that reads back, the nearer one if both do. -/
def onGrid? (x : Finite) (g : Int) : Option Scientific :=
  let lower := x.below g
  let upper := x.above g
  if x.accepts lower then
    some (if x.accepts upper && x.upperIsNearer g then upper else lower)
  else if x.accepts upper then some upper
  else none

/-! ## The search -/

/-- No number of the formats at hand needs more digits. -/
def mostDigits : Nat := 17

/-- Try the grids with exponents `g`, `g - 1`, … until one has a hit. -/
def search (x : Finite) : (tries : Nat) → (g : Int) → Scientific
  | 0, g => x.below g
  | tries + 1, g =>
    match x.onGrid? g with
    | some s => s
    | none => x.search tries (g - 1)

/-- The shortest decimal that reads back as `x`. -/
def shortest (x : Finite) : Scientific :=
  if x.significand = 0 then ⟨0, 0⟩
  else (x.search mostDigits (x.magnitude - 1)).trimZeros mostDigits

end Finite

/-- The shortest text of a number: every digit is written, and what is not a number has no sign. -/
def Binary.shortestText : Binary → String
  | .nan => "NaN"
  | .infinite negative => signed negative "inf".toList
  | .finite negative x => signed negative x.shortest.written

example : (Format.binary64.decode 0x3FB999999999999A).shortestText = "0.1" := by decide +kernel
example : (Format.binary32.decode 0x3DCCCCCD).shortestText = "0.1" := by decide +kernel
example : (Format.binary64.decode 0x40C81CD6E631F8A1).shortestText = "12345.6789" := by
  decide +kernel
example : (Format.binary64.decode 0x44B52D02C7E14AF6).shortestText = "100000000000000000000000" := by
  decide +kernel
example : (Format.binary64.decode (2 ^ 63)).shortestText = "-0" := by decide +kernel

end Simplex.Decimal
