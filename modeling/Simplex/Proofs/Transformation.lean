/-
  A pivot as a change of equations.

  A pivot solves the rows for the entering column and says the same as before.  This asks nothing of the tableau — it
  need not be solved for its basis, and its right-hand sides can have any sign — and nothing of the tolerance.  Only
  what is stored can differ from what was computed: a right-hand side that comes out a little below zero is taken for
  a rounding error.

  1. `exactLevel` — the right-hand sides as they are computed, and `level_pivot_eq` — what is stored of them.
  2. `HoldsWith` — a point satisfies the rows with other right-hand sides than the stored ones.
  3. `holdsWith_pivot_iff` — with the computed right-hand sides, the rows after a pivot have the solutions of the rows
     before it; `excess_objective_pivot` — and on these the objective is the same.
  4. `pivot_transforms` — all of this, and what a pivot does not touch.
-/
import Simplex.Proofs.Oversteps

namespace Simplex.Tableau

variable {F : Type} [Field F] [LinearOrder F] {L : Layout} {m : Nat} (t : Tableau F L m) (eps : F)
  {j : Fin L.columns} {i : Fin m}

/-! ## Right-hand sides, computed and stored -/

/-- The right-hand sides a pivot comes to, before they are looked at for rounding errors. -/
def exactLevel (j : Fin L.columns) (i r : Fin m) : F :=
  if r = i then t.ratio j i else t.levelAfter j i r

theorem exactLevel_self : t.exactLevel j i i = t.ratio j i := if_pos rfl

theorem exactLevel_of_ne {r : Fin m} (h : r ≠ i) : t.exactLevel j i r = t.levelAfter j i r := if_neg h

/-- What is stored of a right-hand side: zero if it is a little below zero, but never in the pivot row. -/
theorem level_pivot_eq (r : Fin m) : (t.pivot eps j i).level r =
    if r ≠ i ∧ t.exactLevel j i r < 0 ∧ -eps < t.exactLevel j i r then 0 else t.exactLevel j i r := by
  by_cases hr : r = i
  · rw [hr, level_pivot_self, exactLevel_self, if_neg fun h => h.1 rfl]
  · rw [t.level_pivot eps hr, exactLevel_of_ne t hr, settle]
    exact if_congr (by simp [hr]) rfl rfl

/-! ## The entering column -/

theorem entry_pivot_column (hij : t.entry i j ≠ 0) (r : Fin m) :
    (t.pivot eps j i).entry r j = if r = i then 1 else 0 := by
  by_cases hr : r = i
  · rw [hr, t.entry_pivot_self eps hij, div_self hij, if_pos rfl]
  · rw [t.entry_pivot_of_ne eps hij hr, div_self hij, mul_one, sub_self, if_neg hr]

theorem cost_pivot_column (hij : t.entry i j ≠ 0) : (t.pivot eps j i).cost j = 0 := by
  rw [t.cost_pivot eps hij, div_self hij, mul_one, sub_self]

/-! ## The equations -/

/-- The point `x` satisfies every row with the right-hand sides `b` in place of the stored ones. -/
def HoldsWith (b : Fin m → F) (x : Fin L.columns → F) : Prop :=
  ∀ r, (t.row r).line.eval x = b r

instance (b : Fin m → F) (x : Fin L.columns → F) : Decidable (t.HoldsWith b x) :=
  inferInstanceAs (Decidable (∀ r, (t.row r).line.eval x = b r))

instance (x : Fin L.columns → F) : Decidable (t.Holds x) :=
  inferInstanceAs (Decidable (t.HoldsWith t.level x))

variable {x : Fin L.columns → F}

/-- The computed right-hand sides go with the rows: the solutions stay the same. -/
theorem holdsWith_pivot_iff (hij : t.entry i j ≠ 0) :
    (t.pivot eps j i).HoldsWith (t.exactLevel j i) x ↔ t.Holds x := by
  have hzero := t.forall_pivot_eq_zero_iff (j := j) (i := i) hij
    (g := fun r => ((t.pivot eps j i).row r).line.eval x - t.exactLevel j i r)
    (h := fun r => (t.row r).line.eval x - t.level r) ?_ ?_
  · simp only [sub_eq_zero] at hzero
    exact hzero
  · rw [t.eval_pivot_self eps x hij, exactLevel_self, ratio, sub_div]
  · intro r hr
    rw [t.eval_pivot_of_ne eps x hij hr, exactLevel_of_ne t hr, levelAfter, ratio]
    ring

/-- On the solutions, the objective row less its last cell stays the same. -/
theorem excess_objective_pivot (hij : t.entry i j ≠ 0) (hx : t.Holds x) :
    (t.pivot eps j i).objective.excess x = t.objective.excess x := by
  rw [← objectiveAt_eq_excess, ← objectiveAt_eq_excess, t.objectiveAt_pivot eps hij hx]

/-! ## All of it -/

/-- **A pivot is an equivalence transformation.**  For every tableau, every tolerance and every entry that is not
    zero: the entering column becomes the unit column of its row and costs nothing; the rows with the computed
    right-hand sides have the same solutions as before, and on these the objective row less its last cell has not
    changed; what is stored are the computed right-hand sides, but for zeros in other rows that came out between
    minus the tolerance and zero; the last cell of the objective row is stored as computed; and no other basic column
    and no column's eligibility has changed. -/
theorem pivot_transforms (hij : t.entry i j ≠ 0) :
    (∀ r, (t.pivot eps j i).entry r j = if r = i then 1 else 0) ∧ (t.pivot eps j i).cost j = 0 ∧
    (∀ x, t.Holds x ↔ (t.pivot eps j i).HoldsWith (t.exactLevel j i) x) ∧
    (∀ x, t.Holds x → (t.pivot eps j i).objective.excess x = t.objective.excess x) ∧
    t.exactLevel j i i = t.level i / t.entry i j ∧
    (∀ r, r ≠ i → t.exactLevel j i r = t.level r - t.entry r j * (t.level i / t.entry i j)) ∧
    (∀ r, (t.pivot eps j i).level r =
      if r ≠ i ∧ t.exactLevel j i r < 0 ∧ -eps < t.exactLevel j i r then 0 else t.exactLevel j i r) ∧
    (t.pivot eps j i).objective.rhs = t.objective.rhs - t.cost j * (t.level i / t.entry i j) ∧
    (∀ k, (t.pivot eps j i).isEligible k = t.isEligible k) ∧
    (t.pivot eps j i).basic i = j ∧ ∀ r, r ≠ i → (t.pivot eps j i).basic r = t.basic r :=
  ⟨t.entry_pivot_column eps hij, t.cost_pivot_column eps hij,
    fun _ => (t.holdsWith_pivot_iff eps hij).symm, fun _ hx => t.excess_objective_pivot eps hij hx,
    t.exactLevel_self, fun _ hr => t.exactLevel_of_ne hr, t.level_pivot_eq eps, t.rhs_objective_pivot eps,
    fun _ => rfl, t.basic_pivot_self eps j i, fun _ hr => t.basic_pivot_of_ne eps j hr⟩

/-- Two rows that meet the same column almost at the same step. -/
def narrow : Tableau ℚ ⟨1, 2, 0, 0⟩ 2 := fill ⟨1, 2, 0, 0⟩ [[1, 1, 0], [1, 0, 1]] [1, 15/16]

/-- Entering the first column of `narrow` in the first row takes the second row to minus a sixteenth, which is stored
    as zero.  The point `(1, 0, -1/16)` satisfies the rows before the pivot, and those after it with what was
    computed. -/
theorem pivot_transforms_narrow : narrow.entry ⟨0, by decide⟩ ⟨0, by decide⟩ ≠ 0 ∧
    narrow.exactLevel ⟨0, by decide⟩ ⟨0, by decide⟩ ⟨1, by decide⟩ = -1/16 ∧
    (narrow.pivot (1/8) ⟨0, by decide⟩ ⟨0, by decide⟩).level ⟨1, by decide⟩ = 0 ∧
    (narrow.pivot (1/8) ⟨0, by decide⟩ ⟨0, by decide⟩).entry ⟨1, by decide⟩ ⟨0, by decide⟩ = 0 ∧
    narrow.Holds (fun k => [1, 0, -1/16].getD k 0) ∧
    (narrow.pivot (1/8) ⟨0, by decide⟩ ⟨0, by decide⟩).HoldsWith
      (narrow.exactLevel ⟨0, by decide⟩ ⟨0, by decide⟩) (fun k => [1, 0, -1/16].getD k 0) := by
  have hentry : narrow.entry ⟨0, by decide⟩ ⟨0, by decide⟩ ≠ 0 := by decide +kernel
  have hexact : narrow.exactLevel ⟨0, by decide⟩ ⟨0, by decide⟩ ⟨1, by decide⟩ = -1/16 := by decide +kernel
  have hholds : narrow.Holds (fun k => [1, 0, -1/16].getD k 0) := by decide +kernel
  obtain ⟨hunit, -, hsame, -, -, -, hstored, -⟩ := narrow.pivot_transforms (1/8) hentry
  refine ⟨hentry, hexact, ?_, hunit _, hholds, (hsame _).1 hholds⟩
  rw [hstored, hexact]
  decide +kernel

end Simplex.Tableau
