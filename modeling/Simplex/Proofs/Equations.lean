/-
  What a tableau says: linear equations and a linear objective.

  1. `Line.eval` — the left side of a line at a point, and `Line.excess` — by how much it exceeds the right
     side.  All arithmetic on lines is linear in the excess.
  2. `Tableau.Holds` — a point satisfies every row; `Tableau.objectiveAt` — the objective at a point.
  3. `Tableau.holds_pivot_iff`, `Tableau.objectiveAt_pivot` — a pivot changes neither, as long as no right-hand
     side is taken for a rounding error.
-/
import Mathlib.Algebra.BigOperators.Field
import Mathlib.Algebra.BigOperators.Ring.Finset
import Simplex.Proofs.Exact

namespace Simplex

variable {F : Type} [Field F] [LinearOrder F]

/-! ## Lines at a point -/

namespace Line

variable {n : Nat}

/-- The left side of the line at the point `x`. -/
def eval (l : Line F n) (x : Fin n → F) : F := ∑ j, l.cell j * x j

/-- By how much the left side exceeds the right side at the point `x`. -/
def excess (l : Line F n) (x : Fin n → F) : F := l.eval x - l.rhs

omit [LinearOrder F] in
/-- Going `step` times as far as `r` from `x`. -/
theorem eval_add_mul (l : Line F n) (x r : Fin n → F) (step : F) :
    l.eval (fun k => x k + step * r k) = l.eval x + step * l.eval r := by
  simp only [eval, Finset.mul_sum, ← Finset.sum_add_distrib]
  refine Finset.sum_congr rfl ?_
  intro k _
  ring

theorem excess_subtract (l : Line F n) (factor : F) (p : Line F n) (x : Fin n → F) :
    (l.subtract factor p).excess x = l.excess x - factor * p.excess x := by
  have he : (l.subtract factor p).eval x = l.eval x - factor * p.eval x := by
    simp only [eval, cell_subtract, Finset.mul_sum, ← Finset.sum_sub_distrib]
    refine Finset.sum_congr rfl ?_
    intro k _
    ring
  simp only [excess, he, rhs_subtract]
  ring

/-- Clearing a column takes away a multiple of the left side, and of the excess as well. -/
theorem eval_eliminate (l : Line F n) {p : Line F n} {j : Fin n} (hp : p.cell j = 1) (x : Fin n → F) :
    (l.eliminate j p).eval x = l.eval x - l.cell j * p.eval x := by
  simp only [eval, cell_eliminate l hp, Finset.mul_sum, ← Finset.sum_sub_distrib]
  refine Finset.sum_congr rfl ?_
  intro k _
  ring

theorem excess_eliminate (l : Line F n) {p : Line F n} {j : Fin n} (hp : p.cell j = 1)
    (x : Fin n → F) : (l.eliminate j p).excess x = l.excess x - l.cell j * p.excess x := by
  rw [excess, eval_eliminate l hp, rhs_eliminate, excess, excess]
  ring

end Line

/-! ## The equations and the objective of a tableau -/

namespace Tableau

variable {L : Layout} {m : Nat}

/-- The point `x` satisfies every row of the tableau. -/
def Holds (t : Tableau F L m) (x : Fin L.columns → F) : Prop :=
  ∀ i, (t.row i).line.eval x = t.level i

/-- The objective at the point `x`. -/
def objectiveAt (t : Tableau F L m) (x : Fin L.columns → F) : F := t.objective.eval x + t.value

omit [LinearOrder F] in
theorem holds_iff_excess {t : Tableau F L m} {x : Fin L.columns → F} :
    t.Holds x ↔ ∀ i, (t.row i).line.excess x = 0 := by
  constructor
  · intro h i
    exact sub_eq_zero.2 (h i)
  · intro h i
    exact sub_eq_zero.1 (h i)

omit [LinearOrder F] in
theorem objectiveAt_eq_excess (t : Tableau F L m) (x : Fin L.columns → F) :
    t.objectiveAt x = t.objective.excess x := by
  show t.objective.eval x + -t.objective.rhs = t.objective.eval x - t.objective.rhs
  ring

/-! ## A pivot changes neither -/

section

variable (t : Tableau F L m) (eps : F) {j : Fin L.columns} {i : Fin m} (x : Fin L.columns → F)

theorem eval_pivotLine (h : t.entry i j ≠ 0) :
    (t.pivotLine j i).eval x = (t.row i).line.eval x / t.entry i j := by
  simp only [Line.eval, t.cell_pivotLine h, Finset.sum_div]
  refine Finset.sum_congr rfl ?_
  intro k _
  rw [div_mul_eq_mul_div]
  rfl

theorem excess_pivotLine (h : t.entry i j ≠ 0) :
    (t.pivotLine j i).excess x = (t.row i).line.excess x / t.entry i j := by
  rw [Line.excess, t.eval_pivotLine x h, rhs_pivotLine, ratio, Line.excess, sub_div]
  rfl

theorem eval_pivot_self (h : t.entry i j ≠ 0) :
    ((t.pivot eps j i).row i).line.eval x = (t.row i).line.eval x / t.entry i j := by
  rw [row_pivot_self]
  exact t.eval_pivotLine x h

/-- The left side of another row, whatever becomes of its right-hand side. -/
theorem eval_pivot_of_ne (h : t.entry i j ≠ 0) {r : Fin m} (hr : r ≠ i) :
    ((t.pivot eps j i).row r).line.eval x =
      (t.row r).line.eval x - t.entry r j * ((t.row i).line.eval x / t.entry i j) := by
  have hsnap : ∀ l : Line F L.columns, (l.snap eps).eval x = l.eval x := by
    intro l
    simp only [Line.eval, Line.cell_snap]
  rw [row_pivot_of_ne t eps j hr, hsnap, Line.eval_eliminate _ t.cell_pivotLine_self, t.eval_pivotLine x h]
  rfl

theorem excess_pivot_self (h : t.entry i j ≠ 0) :
    ((t.pivot eps j i).row i).line.excess x = (t.row i).line.excess x / t.entry i j := by
  rw [row_pivot_self]
  exact t.excess_pivotLine x h

theorem excess_pivot_of_ne (h : t.entry i j ≠ 0) {r : Fin m} (hr : r ≠ i)
    (hl : (t.pivot eps j i).level r = t.levelAfter j i r) :
    ((t.pivot eps j i).row r).line.excess x =
      (t.row r).line.excess x - t.entry r j * ((t.row i).line.excess x / t.entry i j) := by
  show ((t.pivot eps j i).row r).line.eval x - (t.pivot eps j i).level r =
    (t.row r).line.eval x - t.level r - t.entry r j * (((t.row i).line.eval x - t.level i) / t.entry i j)
  rw [t.eval_pivot_of_ne eps x h hr, hl, levelAfter, ratio]
  ring

omit [LinearOrder F] in
/-- Let `h` be a column of numbers next to the rows, and `g` what a pivot makes of it.  One is zero throughout
    exactly when the other is. -/
theorem forall_pivot_eq_zero_iff (hij : t.entry i j ≠ 0) {g h : Fin m → F} (hi : g i = h i / t.entry i j)
    (hr : ∀ r, r ≠ i → g r = h r - t.entry r j * (h i / t.entry i j)) : (∀ r, g r = 0) ↔ ∀ r, h r = 0 := by
  constructor
  · intro hg
    have hzero : h i = 0 := by
      rw [hg i] at hi
      exact (div_eq_zero_iff.1 hi.symm).resolve_right hij
    intro r
    by_cases hri : r = i
    · rw [hri]; exact hzero
    · have hrow := hr r hri
      rw [hg r, hzero] at hrow
      simpa using hrow.symm
  · intro hh r
    by_cases hri : r = i
    · rw [hri, hi, hh i, zero_div]
    · rw [hr r hri, hh r, hh i]
      simp

variable {x}

/-- A pivot keeps the solutions, if no right-hand side is taken for a rounding error. -/
theorem holds_pivot_iff_of_level_eq (h : t.entry i j ≠ 0)
    (hl : ∀ r, r ≠ i → (t.pivot eps j i).level r = t.levelAfter j i r) :
    (t.pivot eps j i).Holds x ↔ t.Holds x := by
  rw [holds_iff_excess, holds_iff_excess]
  exact t.forall_pivot_eq_zero_iff h (t.excess_pivot_self eps x h)
    fun r hr => t.excess_pivot_of_ne eps x h hr (hl r hr)

/-- In particular if no right-hand side comes out negative. -/
theorem holds_pivot_iff (h : t.entry i j ≠ 0) (hl : ∀ r, r ≠ i → 0 ≤ t.levelAfter j i r) :
    (t.pivot eps j i).Holds x ↔ t.Holds x :=
  t.holds_pivot_iff_of_level_eq eps h fun r hr => t.level_pivot_of_ne eps hr (hl r hr)

/-- A pivot keeps the objective on the solutions. -/
theorem objectiveAt_pivot (h : t.entry i j ≠ 0) (hx : t.Holds x) :
    (t.pivot eps j i).objectiveAt x = t.objectiveAt x := by
  rw [objectiveAt_eq_excess, objectiveAt_eq_excess, objective_pivot,
    Line.excess_eliminate _ t.cell_pivotLine_self, t.excess_pivotLine x h,
    holds_iff_excess.1 hx i]
  simp

end

end Tableau

end Simplex
