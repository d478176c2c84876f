/-
  Tableaux solved for their basis.

  In a canonical tableau the basic column of a row is the unit column of that row; it is priced when basic
  columns have relative cost zero.  Then the rows give every basic variable in terms of the others, and the
  objective only depends on the others.

  1. `Canonical.eval_row`, `Priced.eval_objective` — what is left of a row and of the objective.
  2. `Canonical.holds_solutionAt` — the basic solution satisfies the rows, and `Canonical.eq_of_holds` — a point
     that does so is determined by its values outside the basis.
  3. `ray j` — how a point moves when column `j` rises by one and the rows stay satisfied;
     `Canonical.holds_raise` and `Priced.objectiveAt_raise` follow the ray from the basic solution.
  4. `Canonical.pivot`, `Priced.pivot` — a pivot keeps both, whatever the tolerance.
-/
import Simplex.Proofs.Equations

namespace Simplex.Tableau

variable {F : Type} [Field F] {L : Layout} {m : Nat} {t : Tableau F L m}

/-! ## Canonical and priced -/

/-- The basic column of every row is the unit column of that row. -/
def Canonical (t : Tableau F L m) : Prop :=
  ∀ i k, t.entry i (t.basic k) = if i = k then 1 else 0

/-- Basic columns have relative cost zero. -/
def Priced (t : Tableau F L m) : Prop := ∀ i, t.cost (t.basic i) = 0

/-- Unit columns of different rows are different. -/
theorem Canonical.basic_injective (h : t.Canonical) : Function.Injective t.basic := by
  intro i k hik
  by_contra hne
  have h1 := h i i
  have h0 := h i k
  rw [if_pos rfl] at h1
  rw [if_neg hne, ← hik, h1] at h0
  exact one_ne_zero h0

omit [Field F] in
/-- A column is the basic one of some row, or outside the basis. -/
theorem basic_or_not (t : Tableau F L m) (j : Fin L.columns) :
    (∃ i, t.basic i = j) ∨ t.isBasic j = false := by
  rcases Bool.eq_false_or_eq_true (t.isBasic j) with hb | hb
  · exact Or.inl (isBasic_iff.1 hb)
  · exact Or.inr hb

theorem Canonical.rowOf?_basic (h : t.Canonical) (i : Fin m) : t.rowOf? (t.basic i) = some i :=
  Tableau.rowOf?_basic h.basic_injective i

/-! ## What is left of the lines -/

/-- A row is its basic variable and a combination of the variables outside the basis. -/
theorem Canonical.eval_row (h : t.Canonical) (i : Fin m) (x : Fin L.columns → F) :
    (t.row i).line.eval x = x (t.basic i) + ∑ k with t.isBasic k = false, t.entry i k * x k := by
  have hsplit := Finset.sum_filter_add_sum_filter_not Finset.univ
    (fun k => t.isBasic k = true) (fun k => t.entry i k * x k)
  have hbasic : ∑ k with t.isBasic k = true, t.entry i k * x k = x (t.basic i) := by
    rw [Finset.sum_eq_single (t.basic i)]
    · rw [h i i, if_pos rfl, one_mul]
    · intro k hk hne
      obtain ⟨r, rfl⟩ := isBasic_iff.1 (Finset.mem_filter.1 hk).2
      rw [h i r, if_neg (fun e => hne (by rw [e])), zero_mul]
    · intro hk
      exact (hk (Finset.mem_filter.2 ⟨Finset.mem_univ _, isBasic_iff.2 ⟨i, rfl⟩⟩)).elim
  rw [hbasic] at hsplit
  show ∑ k, t.entry i k * x k = _
  rw [← hsplit]
  simp only [Bool.not_eq_true]

/-- The objective is a combination of the variables outside the basis. -/
theorem Priced.eval_objective (h : t.Priced) (x : Fin L.columns → F) :
    t.objective.eval x = ∑ k with t.isBasic k = false, t.cost k * x k := by
  refine (Finset.sum_subset (Finset.subset_univ _) ?_).symm
  intro k _ hk
  rcases t.basic_or_not k with ⟨r, rfl⟩ | hb
  · show t.cost (t.basic r) * _ = 0
    rw [h r, zero_mul]
  · exact absurd (Finset.mem_filter.2 ⟨Finset.mem_univ k, hb⟩) hk

/-! ## The basic solution -/

/-- The value of a basic variable is the level of its row. -/
theorem Canonical.solutionAt_basic (h : t.Canonical) (i : Fin m) :
    t.solutionAt (t.basic i) = t.level i :=
  Tableau.solutionAt_basic h.basic_injective i

/-- Where all variables outside the basis are zero, a row is its basic variable. -/
theorem Canonical.eval_row_of_vanish (h : t.Canonical) (i : Fin m) {x : Fin L.columns → F}
    (hx : ∀ k, t.isBasic k = false → x k = 0) : (t.row i).line.eval x = x (t.basic i) := by
  rw [h.eval_row, Finset.sum_eq_zero, add_zero]
  intro k hk
  rw [hx k (Finset.mem_filter.1 hk).2, mul_zero]

/-- The basic solution satisfies every row. -/
theorem Canonical.holds_solutionAt (h : t.Canonical) : t.Holds t.solutionAt := by
  intro i
  rw [h.eval_row_of_vanish i fun k hk => solutionAt_of_not_basic hk, h.solutionAt_basic]

/-- Two points at which all rows come to the same, and which agree outside the basis, are the same. -/
theorem Canonical.eq_of_eval_eq (h : t.Canonical) {x y : Fin L.columns → F}
    (hrow : ∀ i, (t.row i).line.eval x = (t.row i).line.eval y)
    (hxy : ∀ k, t.isBasic k = false → x k = y k) : x = y := by
  funext k
  rcases t.basic_or_not k with ⟨i, rfl⟩ | hk
  · have hrest : ∑ c with t.isBasic c = false, t.entry i c * x c =
        ∑ c with t.isBasic c = false, t.entry i c * y c := by
      refine Finset.sum_congr rfl ?_
      intro c hc
      rw [hxy c (Finset.mem_filter.1 hc).2]
    have heval := hrow i
    rw [h.eval_row, h.eval_row, hrest] at heval
    exact add_right_cancel heval
  · exact hxy k hk

/-- Two solutions that agree outside the basis are the same. -/
theorem Canonical.eq_of_holds (h : t.Canonical) {x y : Fin L.columns → F} (hx : t.Holds x)
    (hy : t.Holds y) (hxy : ∀ k, t.isBasic k = false → x k = y k) : x = y :=
  h.eq_of_eval_eq (fun i => (hx i).trans (hy i).symm) hxy

/-- The basic solution is the only solution with zeros outside the basis. -/
theorem Canonical.eq_solutionAt (h : t.Canonical) {x : Fin L.columns → F} (hx : t.Holds x)
    (h0 : ∀ k, t.isBasic k = false → x k = 0) : x = t.solutionAt := by
  refine h.eq_of_holds hx h.holds_solutionAt ?_
  intro k hk
  rw [h0 k hk, solutionAt_of_not_basic hk]

/-- The value of the tableau is the objective at its basic solution. -/
theorem Priced.objectiveAt_solutionAt (h : t.Priced) : t.objectiveAt t.solutionAt = t.value := by
  rw [objectiveAt, h.eval_objective, Finset.sum_eq_zero, zero_add]
  intro k hk
  rw [solutionAt_of_not_basic (Finset.mem_filter.1 hk).2, mul_zero]

/-! ## Raising one variable -/

/-- How a solution moves when the variable of column `j`, outside the basis, rises by one. -/
def ray (t : Tableau F L m) (j k : Fin L.columns) : F :=
  match t.rowOf? k with
  | some i => -t.entry i j
  | none => if k = j then 1 else 0

/-- The basic solution after the variable of column `j` rose by `step`. -/
def raise (t : Tableau F L m) (j : Fin L.columns) (step : F) (k : Fin L.columns) : F :=
  t.solutionAt k + step * t.ray j k

section

variable {j : Fin L.columns}

/-- When a column is raised by one, a basic variable falls by the entry of its row. -/
theorem Canonical.ray_basic (h : t.Canonical) (i : Fin m) : t.ray j (t.basic i) = -t.entry i j := by
  rw [ray, h.rowOf?_basic]

/-- Other columns outside the basis stay where they are. -/
theorem ray_of_not_basic {k : Fin L.columns} (h : t.isBasic k = false) :
    t.ray j k = if k = j then 1 else 0 := by
  rw [ray, rowOf?_of_not_basic h]

/-- A sum over the columns outside the basis only sees column `j` on its ray. -/
theorem sum_mul_ray (hj : t.isBasic j = false) (c : Fin L.columns → F) :
    ∑ k with t.isBasic k = false, c k * t.ray j k = c j := by
  rw [Finset.sum_eq_single j]
  · rw [ray_of_not_basic hj, if_pos rfl, mul_one]
  · intro k hk hne
    rw [ray_of_not_basic (Finset.mem_filter.1 hk).2, if_neg hne, mul_zero]
  · intro hk
    exact (hk (Finset.mem_filter.2 ⟨Finset.mem_univ _, hj⟩)).elim

/-- No row changes along a ray. -/
theorem Canonical.eval_row_ray (h : t.Canonical) (hj : t.isBasic j = false) (i : Fin m) :
    (t.row i).line.eval (t.ray j) = 0 := by
  rw [h.eval_row, h.ray_basic, sum_mul_ray hj]
  ring

/-- The objective changes by the relative cost along a ray. -/
theorem Priced.eval_objective_ray (h : t.Priced) (hj : t.isBasic j = false) :
    t.objective.eval (t.ray j) = t.cost j := by
  rw [h.eval_objective, sum_mul_ray hj]

/-- Raising a column stays on the rows. -/
theorem Canonical.holds_raise (h : t.Canonical) (hj : t.isBasic j = false) (step : F) :
    t.Holds (t.raise j step) := by
  intro i
  show (t.row i).line.eval (fun k => t.solutionAt k + step * t.ray j k) = _
  rw [Line.eval_add_mul, h.eval_row_ray hj, mul_zero, add_zero]
  exact h.holds_solutionAt i

/-- It changes the objective by the relative cost of the column for each unit. -/
theorem Priced.objectiveAt_raise (h : t.Priced) (hj : t.isBasic j = false) (step : F) :
    t.objectiveAt (t.raise j step) = t.value + step * t.cost j := by
  have hv : t.objective.eval t.solutionAt + t.value = t.value := h.objectiveAt_solutionAt
  show t.objective.eval (fun k => t.solutionAt k + step * t.ray j k) + _ = _
  rw [Line.eval_add_mul, h.eval_objective_ray hj]
  linear_combination hv

end

/-! ## A pivot keeps both -/

section

variable [LinearOrder F] {j : Fin L.columns} {i : Fin m}

/-- A pivot solves the tableau for the new basis. -/
theorem Canonical.pivot (h : t.Canonical) (eps : F) (hij : t.entry i j ≠ 0) :
    (t.pivot eps j i).Canonical := by
  intro r k
  by_cases hk : k = i
  · rw [hk, basic_pivot_self]
    by_cases hr : r = i
    · rw [hr, t.entry_pivot_self eps hij, div_self hij, if_pos rfl]
    · rw [t.entry_pivot_of_ne eps hij hr, div_self hij, if_neg hr]
      ring
  · rw [basic_pivot_of_ne t eps j hk]
    have hzero : t.entry i (t.basic k) = 0 := by rw [h i k, if_neg (Ne.symm hk)]
    by_cases hr : r = i
    · rw [hr, t.entry_pivot_self eps hij, hzero, zero_div, if_neg (Ne.symm hk)]
    · rw [t.entry_pivot_of_ne eps hij hr, hzero, zero_div, mul_zero, sub_zero]
      exact h r k

/-- It clears the cost of the entering column and disturbs no other basic one. -/
theorem Priced.pivot (hp : t.Priced) (h : t.Canonical) (eps : F) (hij : t.entry i j ≠ 0) :
    (t.pivot eps j i).Priced := by
  intro k
  rw [t.cost_pivot eps hij]
  by_cases hk : k = i
  · rw [hk, basic_pivot_self, div_self hij]
    ring
  · rw [basic_pivot_of_ne t eps j hk, hp k, h i k, if_neg (Ne.symm hk)]
    ring

end

end Simplex.Tableau
