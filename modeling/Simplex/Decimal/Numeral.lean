/-
  Number types that can be written as decimals.

  `Numeral F` asks for the two texts the rest of the library prints: the shortest one that reads back, and
  one with a fixed number of places.  The two hardware formats have them through their bit patterns.
-/
import Simplex.Decimal.Shortest
import Simplex.Decimal.Fixed

namespace Simplex

/-- A number type with its decimal texts. -/
class Numeral (F : Type) where
  /-- The fewest digits that read back as the same number. -/
  text : F → String
  /-- Exactly so many digits behind the point. -/
  fixed : (places : Nat) → F → String

/-- Double precision numbers are written from their 64 bits. -/
instance : Numeral Float where
  text x := (Decimal.Format.binary64.decode x.toBits.toNat).shortestText
  fixed places x := (Decimal.Format.binary64.decode x.toBits.toNat).fixedText places

/-- Single precision numbers are written from their 32 bits. -/
instance : Numeral Float32 where
  text x := (Decimal.Format.binary32.decode x.toBits.toNat).shortestText
  fixed places x := (Decimal.Format.binary32.decode x.toBits.toNat).fixedText places

example : Numeral.text (0.1 : Float) = "0.1" := by decide +kernel
example : Numeral.text (0.1 : Float32) = "0.1" := by decide +kernel
example : Numeral.text (1e-9 : Float) = "0.000000001" := by decide +kernel
example : Numeral.fixed 1 (0.25 : Float) = "0.2" := by decide +kernel          -- a half goes to the even digit

end Simplex
