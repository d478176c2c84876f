/-
  What a user can choose about a run.
-/
import Simplex.Scalar
import Simplex.Strategy

namespace Simplex

/-- The choices for a run; the tolerance is given as an `E`. -/
structure Options (E : Type) where
  /-- Differences up to this size count as rounding errors. -/
  eps : E
  /-- How many pivots both phases may take together. -/
  maxPivots : Option Nat
  rule : PivotRule
  /-- After how many degenerate pivots in a row an adaptive rule turns careful. -/
  degeneracyThreshold : Nat

namespace Options

variable {E : Type}

/-- The choices made for a user who makes none. -/
def standard : Options Float where
  eps := 1e-9
  maxPivots := none
  rule := default
  degeneracyThreshold := 8

/-- The number of pivots both phases may take together.  Pivots are counted in a 64-bit word, and no limit stands for
    the largest count there is, `2 ^ 64 - 1`.  So a run without a limit that never came to an end, which a rule without
    a safeguard can make of a degenerate tableau, is cut off here like a run with that limit; all runs that end before
    are as without one. -/
def limit (options : Options E) : Nat := options.maxPivots.getD (Nat.pow 2 64 - 1)

/-- The same choices, with `n` pivots allowed. -/
def withLimit (options : Options E) (n : Nat) : Options E := { options with maxPivots := some n }

/-- The strategy a phase starts with. -/
def strategy (options : Options E) : Strategy := options.rule.start options.degeneracyThreshold

/-- Refuse a tolerance that is not finite or not above zero. -/
def check (F : Type) [Tolerance F E] (options : Options E) : Except (SolveError F E) Unit :=
  if Tolerance.isValid F options.eps then .ok () else .error (.invalidTolerance options.eps)

end Options

end Simplex
