/-
  Positional notation: how a whole number of units of a power of ten is written.

  Two writers share this file.  One hands over `digits · 10^exponent` with as few digits as it could
  find (`scaled`), the other a whole number of units of `10^-places` (`withPlaces`).  Both write every
  digit down: there is no exponent mark, whatever the magnitude.

  1. `withPlaces n places` puts a point before the last `places` digits of `n`, writing zeros in front
     until at least one digit stands before the point.
  2. `scaled digits exponent` appends zeros for a positive exponent and otherwise is `withPlaces`.
  3. `signed` puts the sign in front.
-/

namespace Simplex.Decimal

/-! ## Digits of a natural number -/

/-- The decimal digits of `n`, most significant first; zero is the one digit `0`. -/
def digits (n : Nat) : List Char := Nat.toDigits 10 n

/-- How many digits `n` is written with. -/
def digitCount (n : Nat) : Nat := (digits n).length

/-- A run of `n` zeros. -/
def zeros (n : Nat) : List Char := List.replicate n '0'

/-! ## Placing the point -/

/-- `n` units of `10^-places`: all digits of the whole part, a point, and exactly `places` digits.
    Without places there is no point. -/
def withPlaces (n places : Nat) : List Char :=
  if places = 0 then digits n
  else
    let padded := zeros (places + 1 - digitCount n) ++ digits n
    let whole := padded.length - places
    padded.take whole ++ '.' :: padded.drop whole

/-- `n · 10^exponent`, with zeros behind the digits or a point among them. -/
def scaled (n : Nat) (exponent : Int) : List Char :=
  match exponent with
  | .ofNat zerosBehind => digits n ++ zeros zerosBehind
  | .negSucc places => withPlaces n (places + 1)

/-- The sign is written in front, also that of a zero. -/
def signed (negative : Bool) (magnitude : List Char) : String :=
  String.ofList (if negative then '-' :: magnitude else magnitude)

example : withPlaces 5 3 = "0.005".toList := by decide
example : withPlaces 12345 2 = "123.45".toList := by decide
example : scaled 12 3 = "12000".toList := by decide
example : scaled 12 (-1) = "1.2".toList := by decide
example : signed true (withPlaces 0 3) = "-0.000" := by decide

end Simplex.Decimal
