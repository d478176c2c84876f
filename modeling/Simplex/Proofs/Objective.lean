/-
  What a loaded objective says.

  The cost of a program is a line over all columns that is reduced, row by row, until every basic column is clear.  What
  is taken away for one row leaves the basic columns of all other rows alone, so the order does not matter, and it
  changes nothing where the rows hold.  The artificial cost is loaded in another way, which is right because the
  artificial variables are still basic in their own rows, the last ones.

  1. `eval_decisionCost_eq` — before it is reduced, the line is the cost over the decision columns.
  2. `expressed_in_basis` — after both loads basic columns cost nothing, and the objective is still the cost.
-/
import Simplex.Proofs.Exclusion
import Simplex.Proofs.StandardForm

namespace Simplex

variable {F : Type} [Field F]

theorem Direction.orient_mul (direction : Direction) (a b : F) :
    direction.orient a * b = direction.orient (a * b) := by
  cases direction with
  | minimize => rfl
  | maximize => exact neg_mul a b

theorem Direction.orient_sum (direction : Direction) {n : Nat} (f : Fin n → F) :
    ∑ j, direction.orient (f j) = direction.orient (∑ j, f j) := by
  cases direction with
  | minimize => rfl
  | maximize => exact Finset.sum_neg_distrib ..

/-- The column of a decision variable. -/
def Layout.decisionColumn (L : Layout) (j : Fin L.decision) : Fin L.columns := j.castLE L.decision_le_columns

namespace Tableau

variable [LinearOrder F] {L : Layout}

/-- The cost of a decision variable stands in its column, with its sign changed for a maximum. -/
theorem cell_decisionCost_decisionColumn (direction : Direction) (cost : Vector F L.decision) (j : Fin L.decision) :
    (decisionCost direction cost).cell (L.decisionColumn j) = direction.orient (cost.get j) := by
  simp [decisionCost, Line.cell, Layout.decisionColumn, get_eq_getElem]

/-- All other variables cost nothing. -/
theorem cell_decisionCost_of_le (direction : Direction) (cost : Vector F L.decision) {j : Fin L.columns}
    (hj : L.decision ≤ j.val) : (decisionCost direction cost).cell j = 0 := by
  simp [decisionCost, Line.cell, get_eq_getElem, Nat.not_lt.2 hj]

/-- The costs are those of the decision variables, and no other variable has any. -/
theorem eval_decisionCost_eq (direction : Direction) (cost : Vector F L.decision) (x : Fin L.columns → F) :
    (decisionCost direction cost).eval x = direction.orient (∑ j, cost.get j * x (L.decisionColumn j)) := by
  rw [← Direction.orient_sum, Line.eval]
  refine (Finset.sum_of_injOn L.decisionColumn ?_ ?_ ?_ ?_).symm
  · exact (Fin.castLE_injective L.decision_le_columns).injOn
  · exact fun _ _ => Finset.mem_coe.2 (Finset.mem_univ _)
  · intro j _ hj
    -- a column that no decision variable has
    have hle : L.decision ≤ j.val := by
      by_contra hlt
      exact hj ⟨⟨j, Nat.lt_of_not_le hlt⟩, Finset.mem_coe.2 (Finset.mem_univ _), rfl⟩
    rw [cell_decisionCost_of_le direction cost hle, zero_mul]
  · intro j _
    rw [cell_decisionCost_decisionColumn, Direction.orient_mul]

/-- **A loaded objective is expressed in the current basis.**  When the cost of a program is loaded into a tableau that
    is solved for its basis, whatever the basis and however many rows are left, every basic column has relative cost
    zero, and wherever the rows hold, relative costs and value together are the cost of the decision variables, negated
    for a maximum; so the value is this cost at the basic solution.  Artificial columns are shut out and no others, the
    rows stay as they are with their basic columns, and the objective that stood there before does not matter.  When the
    artificial cost is loaded into a tableau before any pivot, basic columns have relative cost zero as well, and
    wherever the rows hold, relative costs and value together are the sum of the artificial variables. -/
theorem expressed_in_basis :
    (∀ (m : Nat) (t : Tableau F L m), t.Canonical → ∀ (direction : Direction) (cost : Vector F L.decision),
      (∀ i, (t.loadCost direction cost).cost (t.basic i) = 0) ∧
      (∀ x, t.Holds x → (t.loadCost direction cost).objective.eval x + (t.loadCost direction cost).value =
        direction.orient (∑ j, cost.get j * x (L.decisionColumn j))) ∧
      (t.loadCost direction cost).value =
        direction.orient (∑ j, cost.get j * (t.loadCost direction cost).basicSolution.get (L.decisionColumn j)) ∧
      (∀ j, (t.loadCost direction cost).isEligible j = (t.isEligible j && !L.isArtificial j)) ∧
      (t.loadCost direction cost).rows = t.rows ∧
      ∀ before : Line F L.columns, { t with objective := before }.loadCost direction cost =
        t.loadCost direction cost) ∧
    ∀ (rows : List (List F)) (levels : List F) (t : Tableau F L L.rows), ofRows L rows levels = .ok t →
      (∀ i, t.loadArtificial.cost (t.basic i) = 0) ∧
      ∀ x, t.Holds x → t.loadArtificial.objective.eval x + t.loadArtificial.value =
        ∑ j : Fin L.columns, if L.isArtificial j = true then x j else 0 := by
  constructor
  · intro m t hc direction cost
    have hpriced := hc.priced_loadCost direction cost
    have hobjective : ∀ x, t.Holds x → (t.loadCost direction cost).objectiveAt x =
        direction.orient (∑ j, cost.get j * x (L.decisionColumn j)) := by
      intro x hx
      rw [hc.objectiveAt_loadCost direction cost hx, eval_decisionCost_eq]
    refine ⟨hpriced, hobjective, ?_, isEligible_loadCost t direction cost, rfl, fun _ => rfl⟩
    -- the basic solution is one of the points at which the rows hold
    have hvalue := hobjective (t.loadCost direction cost).solutionAt hc.holds_solutionAt
    rw [hpriced.objectiveAt_solutionAt] at hvalue
    simpa only [basicSolution, get_eq_getElem, Vector.getElem_ofFn] using hvalue
  · intro rows levels t ht
    have hfresh := Fresh.of_ofRows ht
    exact ⟨hfresh.canonical.priced_loadArtificial hfresh.artificial_iff, fun x hx => objectiveAt_loadArtificial hx⟩

/-- What is left of `repeated` after a pivot in its first row, without the second one. -/
def halved : Tableau ℚ ⟨2, 0, 0, 2⟩ 1 :=
  (repeated.loadArtificial.pivot (1/8) ⟨0, by decide⟩ 0).removeRows [1]

/-- Before any pivot, the objective of `repeated` is the sum of both artificial variables.  After a pivot and with one
    row left, the first variable is basic at level two, and the value is its cost, negated for a maximum. -/
theorem expressed_in_basis_repeated :
    ofRows ⟨2, 0, 0, 2⟩ [[1, 1, 1, 0], [1, 1, 0, 1]] [2, 2] = .ok repeated ∧
    (∀ x, repeated.Holds x → repeated.loadArtificial.objective.eval x + repeated.loadArtificial.value =
      x ⟨2, by decide⟩ + x ⟨3, by decide⟩) ∧
    halved.Canonical ∧ (halved.loadCost .maximize #v[1, 0]).value = -2 ∧
    ∀ x, halved.Holds x → (halved.loadCost .maximize #v[1, 0]).objective.eval x +
      (halved.loadCost .maximize #v[1, 0]).value = -x ⟨0, by decide⟩ := by
  have hcanonical : halved.Canonical := by
    show ∀ i k, halved.entry i (halved.basic k) = if i = k then 1 else 0
    decide +kernel
  obtain ⟨-, hobjective, hvalue, -⟩ := expressed_in_basis.1 _ halved hcanonical .maximize #v[1, 0]
  refine ⟨ofRows_repeated, fun x hx => ?_, hcanonical, ?_, fun x hx => ?_⟩
  · refine ((expressed_in_basis.2 _ _ _ ofRows_repeated).2 x hx).trans ((Fin.sum_univ_four _).trans ?_)
    show 0 + 0 + x ⟨2, by decide⟩ + x ⟨3, by decide⟩ = _
    ring
  · rw [hvalue]
    decide +kernel
  · refine (hobjective x hx).trans (congrArg (- ·) ((Fin.sum_univ_two _).trans ?_))
    show 1 * x ⟨0, by decide⟩ + 0 * x ⟨1, by decide⟩ = _
    ring

end Tableau

end Simplex
