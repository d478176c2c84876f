/-
  Exact arithmetic: tableaux over an ordered field.

  The definitions ask nothing of their numbers but the operations.  Over a linearly ordered field these
  operations have their laws, every number is finite, and a tolerance is a number like any other.

  1. `exactScalar`, `exactTolerance` — an ordered field as numbers and tolerances of a tableau.
  2. `Line.cell_eliminate`, `Line.rhs_eliminate` — clearing a column is one subtraction: the cell that is set to
     zero would have come out as zero, and a line that is skipped would have lost nothing.
  3. `Tableau.entry_pivot_self` … `Tableau.value_pivot` — a pivot, cell by cell.  A right-hand side that comes
     out nonnegative is not touched by `snap`, and without a tolerance none is.
-/
import Mathlib.Algebra.Order.Field.Basic
import Mathlib.Algebra.Order.Group.Abs
import Mathlib.Tactic.Linarith
import Mathlib.Tactic.LinearCombination
import Mathlib.Tactic.Ring
import Mathlib.Tactic.FieldSimp
import Simplex.Solve

namespace Simplex

/-! ## An ordered field as the numbers of a tableau -/

/-- The numbers of a linearly ordered field; all of them are finite. -/
instance exactScalar {F : Type} [Field F] [LinearOrder F] : Scalar F where
  decidableLT := inferInstance
  decidableLE := inferInstance
  isFinite _ := true

-- Over a field, numerals and operators are to be those of the field, which the laws are stated about.
attribute [instance(low)] Scalar.toZero Scalar.toOne Scalar.toNeg Scalar.toSub Scalar.toMul Scalar.toDiv
  Scalar.toLT Scalar.toLE Scalar.toBEq

/-- Tolerances are numbers of the field, taken as they are. -/
instance exactTolerance {F : Type} [Field F] [LinearOrder F] : Tolerance F F where
  isValid eps := 0 < eps
  read eps := eps

variable {F : Type} [Field F] [LinearOrder F]

@[simp] theorem isFinite_exact (x : F) : Scalar.isFinite x = true := rfl

@[simp] theorem read_exact (eps : F) : (Tolerance.read eps : F) = eps := rfl

/-- Being significant is being larger in absolute value. -/
theorem significant_iff {eps x : F} :
    Scalar.significant eps x = true ↔ eps < |x| := by
  rw [Scalar.significant, Bool.or_eq_true, decide_eq_true_iff, decide_eq_true_iff, lt_abs]

/-! ## Clearing a column -/

namespace Line

variable {n : Nat}

/-- Clearing column `j` with a line that has a one there takes away the multiple, in every column. -/
theorem cell_eliminate (l : Line F n) {p : Line F n} {j : Fin n} (hp : p.cell j = 1) (k : Fin n) :
    (l.eliminate j p).cell k = l.cell k - l.cell j * p.cell k := by
  by_cases h : l.cell j = 0
  · rw [eliminate_of_not_bne p (by simp [h]), h]
    ring
  · rw [eliminate_of_bne p (by simp [h])]
    by_cases hk : k = j
    · rw [hk, cell_set_self, hp]
      ring
    · rw [cell_set_of_ne _ _ hk, cell_subtract]

/-- Elimination, at the right-hand side. -/
theorem rhs_eliminate (l p : Line F n) (j : Fin n) :
    (l.eliminate j p).rhs = l.rhs - l.cell j * p.rhs := by
  by_cases h : l.cell j = 0
  · rw [eliminate_of_not_bne p (by simp [h]), h]
    ring
  · rw [eliminate_of_bne p (by simp [h]), rhs_set, rhs_subtract]

/-- A right-hand side that is not negative is no rounding error. -/
theorem snap_of_nonneg (eps : F) {l : Line F n} (h : 0 ≤ l.rhs) : l.snap eps = l := by
  rw [snap, if_neg]
  rintro ⟨hneg, -⟩
  exact absurd hneg (not_lt.2 h)

/-- Without a tolerance there are no rounding errors. -/
@[simp] theorem snap_zero (l : Line F n) : l.snap 0 = l := by
  rw [snap, if_neg]
  rintro ⟨hneg, hpos⟩
  rw [neg_zero] at hpos
  exact lt_asymm hneg hpos

end Line

/-! ## A pivot, cell by cell -/

namespace Tableau

variable {L : Layout} {m : Nat} (t : Tableau F L m) (eps : F) {j : Fin L.columns} {i : Fin m}

/-- The new row of the pivot is divided by the entry of the pivot. -/
theorem cell_pivotLine (h : t.entry i j ≠ 0) (k : Fin L.columns) :
    (t.pivotLine j i).cell k = t.entry i k / t.entry i j := by
  rw [pivotLine]
  by_cases hk : k = j
  · rw [hk, Line.cell_set_self, div_self h]
  · rw [Line.cell_set_of_ne _ _ hk, Line.cell_divide]
    rfl

theorem cell_pivotLine_self : (t.pivotLine j i).cell j = 1 := Line.cell_set_self ..

theorem rhs_pivotLine : (t.pivotLine j i).rhs = t.ratio j i := rfl

theorem entry_pivot_self (h : t.entry i j ≠ 0) (k : Fin L.columns) :
    (t.pivot eps j i).entry i k = t.entry i k / t.entry i j := by
  rw [entry, row_pivot_self]
  exact t.cell_pivotLine h k

/-- From every other row the multiple is subtracted that makes its entry in the column zero. -/
theorem entry_pivot_of_ne (h : t.entry i j ≠ 0) {r : Fin m} (hr : r ≠ i) (k : Fin L.columns) :
    (t.pivot eps j i).entry r k = t.entry r k - t.entry r j * (t.entry i k / t.entry i j) := by
  rw [entry, row_pivot_of_ne t eps j hr, Line.cell_snap, Line.cell_eliminate _ t.cell_pivotLine_self,
    t.cell_pivotLine h]
  rfl

/-- So it is in the objective. -/
theorem cost_pivot (h : t.entry i j ≠ 0) (k : Fin L.columns) :
    (t.pivot eps j i).cost k = t.cost k - t.cost j * (t.entry i k / t.entry i j) := by
  rw [cost, objective_pivot, Line.cell_eliminate _ t.cell_pivotLine_self, t.cell_pivotLine h]
  rfl

/-- The entering variable gets the ratio of its row as its level. -/
theorem level_pivot_self : (t.pivot eps j i).level i = t.ratio j i := by
  rw [level, row_pivot_self, rhs_pivotLine]

/-- What the right-hand side of another row comes to before it is looked at for rounding errors. -/
def levelAfter (j : Fin L.columns) (i r : Fin m) : F := t.level r - t.entry r j * t.ratio j i

/-- What elimination leaves on the right-hand side, before it is looked at for rounding errors. -/
theorem rhs_eliminate_pivotLine (r : Fin m) :
    ((t.row r).line.eliminate j (t.pivotLine j i)).rhs = t.levelAfter j i r := by
  rw [Line.rhs_eliminate, rhs_pivotLine]
  rfl

/-- A level that does not become negative is not touched by rounding. -/
theorem level_pivot_of_ne {r : Fin m} (hr : r ≠ i) (h : 0 ≤ t.levelAfter j i r) :
    (t.pivot eps j i).level r = t.levelAfter j i r := by
  have hl := t.rhs_eliminate_pivotLine (j := j) (i := i) r
  rw [level, row_pivot_of_ne t eps j hr, Line.snap_of_nonneg eps (by rw [hl]; exact h), hl]

/-- Without tolerance no level is. -/
theorem level_pivot_zero {r : Fin m} (hr : r ≠ i) : (t.pivot 0 j i).level r = t.levelAfter j i r := by
  rw [level, row_pivot_of_ne t 0 j hr, Line.snap_zero, rhs_eliminate_pivotLine]

/-- The last cell of the objective row is never looked at for rounding errors. -/
theorem rhs_objective_pivot : (t.pivot eps j i).objective.rhs = t.objective.rhs - t.cost j * t.ratio j i := by
  rw [objective_pivot, Line.rhs_eliminate, rhs_pivotLine]
  rfl

/-- A pivot changes the value by the relative cost times the step. -/
theorem value_pivot : (t.pivot eps j i).value = t.value + t.cost j * t.ratio j i := by
  show -(t.pivot eps j i).objective.rhs = -t.objective.rhs + _
  rw [rhs_objective_pivot]
  ring

end Tableau

end Simplex
