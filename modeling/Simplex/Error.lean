/-
  Why a program is refused, and why a run ends without an outcome.

  Causes are data; their wording is in one place, `Inconsistency.description` and `SolveError.message`.
  Variables and constraints are counted from one in the messages, rows and columns of a tableau from zero.
-/
import Simplex.Decimal.Numeral

namespace Simplex

/-! ## Inconsistent input -/

/-- What is wrong with a program, a tableau or a cost vector. -/
inductive Inconsistency (F : Type) where
  /-- The cost vector is empty. -/
  | noVariables
  /-- The cost of a variable is infinite or undefined. -/
  | costNotFinite (variableIndex : Nat) (cost : F)
  /-- A constraint has more coefficients than there are variables. -/
  | tooManyCoefficients (constraint coefficients available : Nat)
  /-- A coefficient or the right-hand side of a constraint is infinite or undefined. -/
  | valueNotFinite (constraint : Nat)
  /-- The rows or their right-hand sides are not as many as the layout has. -/
  | rowCount (expected rows levels : Nat)
  /-- A row is not as wide as the layout. -/
  | rowWidth (row width expected : Nat)
  /-- A right-hand side is negative, infinite or undefined. -/
  | badLevel (row : Nat) (level : F)
  /-- A column of the first basis is not a unit column. -/
  | notUnit (column row : Nat)
  /-- The cost vector is not as long as there are decision variables. -/
  | costCount (given expected : Nat)
  /-- Anything else, in the words of the caller. -/
  | described (text : String)

namespace Inconsistency

variable {F : Type} [Numeral F]

/-- The cause in words. -/
def description : Inconsistency F → String
  | noVariables => "The problem has no decision variables"
  | costNotFinite j c => s!"Cost of variable {j + 1} is {Numeral.text c}"
  | tooManyCoefficients i k n =>
    s!"Constraint {i + 1} has {k} coefficients, but there are {n} variables"
  | valueNotFinite i => s!"Constraint {i + 1} has a value that is not finite"
  | rowCount n rows levels =>
    s!"Expected {n} rows, got {rows} rows and {levels} right-hand side values"
  | rowWidth i k n => s!"Row {i} has {k} coefficients, expected {n}"
  | badLevel i b =>
    s!"Right-hand side of row {i} is {Numeral.text b}, should be finite and nonnegative"
  | notUnit j i => s!"Column {j} should be the unit column of row {i} in the initial basis"
  | costCount k n => s!"Cost has {k} values, but there are {n} decision variables"
  | described text => text

/-- The cause as an error message. -/
def message (cause : Inconsistency F) : String := "ProgramError: " ++ cause.description

end Inconsistency

/-! ## Failed runs -/

/-- The two phases of a run: finding a feasible basis, then improving it. -/
inductive Phase where
  | one
  | two
  deriving DecidableEq, Repr

/-- The phase as messages call it. -/
def Phase.name : Phase → String
  | one => "phase one"
  | two => "phase two"

/-- Why a run ends without an outcome; tolerances are given as an `E`. -/
inductive SolveError (F E : Type) where
  /-- The input was refused. -/
  | inconsistent (cause : Inconsistency F)
  /-- The tolerance is not finite or not above zero. -/
  | invalidTolerance (eps : E)
  /-- A further pivot would exceed the allowed number. -/
  | pivotLimit (phase : Phase) (pivots : Nat)
  /-- The artificial cost could be lowered without end, which only rounding can bring about. -/
  | unboundedArtificialCost

/-- The failure in words. -/
def SolveError.message {F E : Type} [Numeral F] [Numeral E] : SolveError F E → String
  | inconsistent cause => cause.message
  | invalidTolerance eps => s!"Invalid tolerance: {Numeral.text eps}"
  | pivotLimit phase n => s!"Iteration limit reached in {phase.name} after {n} pivots"
  | unboundedArtificialCost => "Artificial cost can not be unbounded"

end Simplex
