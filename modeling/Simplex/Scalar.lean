/-
  The numbers a tableau is made of.

  The simplex method needs little of its numbers: the four operations but for addition, an order, a test for
  equality and a test for being finite.  `Scalar` asks for exactly that and for no laws, so that one set of
  definitions runs on hardware floating point, where few laws hold, and can be reasoned about over an ordered
  field, where all of them do.

  1. `Scalar F` — the operations and the decidable order.
  2. `Tolerance F E` — how a tolerance given as an `E` is read as a number of type `F`.  A tolerance for
     single precision is still given in double precision and rounded where it is used.
  3. `Scalar.significant` — larger in magnitude than the tolerance.
-/

namespace Simplex

/-! ## Scalars -/

/-- The operations the simplex method uses on the cells of a tableau. -/
class Scalar (F : Type) extends Zero F, One F, Neg F, Sub F, Mul F, Div F, LT F, LE F, BEq F where
  decidableLT : DecidableLT F
  decidableLE : DecidableLE F
  /-- Neither infinite nor undefined. -/
  isFinite : F → Bool

attribute [reducible, instance] Scalar.decidableLT Scalar.decidableLE

/-- Double precision. -/
instance : Scalar Float where
  decidableLT := inferInstance
  decidableLE := inferInstance
  isFinite := Float.isFinite

/-- Single precision. -/
instance : Scalar Float32 where
  decidableLT := inferInstance
  decidableLE := inferInstance
  isFinite := Float32.isFinite

/-- Is `x` larger in magnitude than `eps`? -/
def Scalar.significant {F : Type} [Scalar F] (eps x : F) : Bool := eps < x || eps < -x

/-! ## Tolerances -/

/-- Tolerances for the number type `F` are given as an `E`. -/
class Tolerance (F : Type) (E : outParam Type) where
  /-- A tolerance can be used if it is finite and above zero. -/
  isValid : E → Bool
  /-- The tolerance as a number of type `F`. -/
  read : E → F

/-- Double precision tolerances are taken as they are. -/
instance : Tolerance Float Float where
  isValid eps := eps.isFinite && 0 < eps
  read eps := eps

/-- Single precision tolerances are given in double precision and rounded. -/
instance : Tolerance Float32 Float where
  isValid eps := eps.isFinite && 0 < eps
  read eps := eps.toFloat32

end Simplex
