/-
  Linear programs as they are stated.

  A program asks for nonnegative values of its variables that satisfy every constraint and have the least or
  the largest cost.  There is one variable per cost; a constraint may leave out coefficients at its end, which
  then are zero.

  `Program.fault?` finds the first thing that is wrong with a program: no variables, a cost that is not finite,
  then constraint by constraint too many coefficients or a value that is not finite.
-/
import Simplex.Error
import Simplex.Relation
import Simplex.Scalar

namespace Simplex

/-- A linear constraint: the coefficients of the first variables, a relation and a right-hand side. -/
structure Constraint (F : Type) where
  coefficients : List F
  relation : Relation
  rhs : F

/-- A linear program over nonnegative variables. -/
structure Program (F : Type) where
  direction : Direction
  cost : List F
  constraints : List (Constraint F)

/-- Values of the decision variables, and the cost they have. -/
structure Solution (F : Type) where
  value : F
  point : List F

/-- The solution in words, a line for its value and a line per variable. -/
def Solution.text {F : Type} [Numeral F] (s : Solution F) : String :=
  s!"Objective value: {Numeral.text s.value}\n" ++
    "\n".intercalate (s.point.zipIdx.map fun (x, j) => s!"x{j + 1} = {Numeral.text x}")

section

variable {F : Type} [Scalar F]

/-- The first cost that is not finite. -/
def costFault? (cost : List F) : Option (Inconsistency F) :=
  (cost.zipIdx.find? fun (c, _) => !Scalar.isFinite c).map fun (c, j) => .costNotFinite j c

/-- What is wrong with the `i`-th constraint of a program with `n` variables. -/
def Constraint.fault? (n i : Nat) (c : Constraint F) : Option (Inconsistency F) :=
  if n < c.coefficients.length then some (.tooManyCoefficients i c.coefficients.length n)
  else if c.coefficients.all Scalar.isFinite && Scalar.isFinite c.rhs then none
  else some (.valueNotFinite i)

namespace Program

/-- One variable per cost. -/
def variableCount (p : Program F) : Nat := p.cost.length

/-- The first thing that is wrong with the program. -/
def fault? (p : Program F) : Option (Inconsistency F) :=
  if p.cost.isEmpty then some .noVariables
  else (costFault? p.cost).or
    (p.constraints.zipIdx.findSome? fun (c, i) => c.fault? p.variableCount i)

end Program

end

end Simplex
