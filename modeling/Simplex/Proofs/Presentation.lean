/-
  Problems and the tableaux that present them.

  A problem is what a descent works on, without a basis: which columns may be used, which points satisfy the
  equations, and the objective.  A tableau presents a problem if it is solved for its basis, the basis uses
  allowed columns only, and rows and objective say the same as the problem on points that are zero outside the
  allowed columns.

  1. `Presents.pivot` — a pivot in an allowed column presents the same problem.
  2. `Presents.entry_eq` … `Presents.value_eq` — the basis determines the tableau: two tableaux that present
     one problem with the same basic columns agree on every allowed column.
-/
import Simplex.Proofs.Canonical

namespace Simplex

variable {F : Type} [Field F] {L : Layout} {m : Nat}

/-! ## Problems -/

/-- Equations and an objective for the columns of `L`, of which only the allowed ones may be used. -/
structure Problem (F : Type) (L : Layout) where
  allowed : Fin L.columns → Bool
  Solves : (Fin L.columns → F) → Prop
  objective : (Fin L.columns → F) → F

/-- The point is zero in every column that is not allowed. -/
def Problem.Within (P : Problem F L) (x : Fin L.columns → F) : Prop :=
  ∀ j, P.allowed j = false → x j = 0

/-- The points among which the least objective is sought. -/
structure Problem.Point [LinearOrder F] (P : Problem F L) (x : Fin L.columns → F) : Prop where
  within : P.Within x
  solves : P.Solves x
  nonneg : ∀ j, 0 ≤ x j

/-- The values of the objective at these points. -/
def Problem.values [LinearOrder F] (P : Problem F L) : Set F := {v | ∃ x, P.Point x ∧ P.objective x = v}

namespace Tableau

/-- The tableau is solved for a basis of allowed columns and says the same as the problem. -/
structure Presents (t : Tableau F L m) (P : Problem F L) : Prop where
  canonical : t.Canonical
  priced : t.Priced
  eligible : ∀ j, t.isEligible j = P.allowed j
  basic_allowed : ∀ i, P.allowed (t.basic i) = true
  holds_iff : ∀ x, P.Within x → (t.Holds x ↔ P.Solves x)
  objective_eq : ∀ x, P.Within x → P.Solves x → t.objectiveAt x = P.objective x

namespace Presents

variable {P : Problem F L} {t : Tableau F L m}

/-! ## Points within the allowed columns -/

/-- A column that is not allowed is not basic. -/
theorem isBasic_of_not_allowed (h : t.Presents P) {j : Fin L.columns} (hj : P.allowed j = false) :
    t.isBasic j = false := by
  rcases t.basic_or_not j with ⟨i, rfl⟩ | hb
  · rw [h.basic_allowed i] at hj
    cases hj
  · exact hb

/-- The basic solution uses allowed columns only. -/
theorem within_solutionAt (h : t.Presents P) : P.Within t.solutionAt :=
  fun _ hj => solutionAt_of_not_basic (h.isBasic_of_not_allowed hj)

/-- The direction in which an allowed column is raised uses allowed columns only. -/
theorem within_ray (h : t.Presents P) {j : Fin L.columns} (hj : P.allowed j = true) :
    P.Within (t.ray j) := by
  intro k hk
  rw [ray_of_not_basic (h.isBasic_of_not_allowed hk), if_neg]
  rintro rfl
  rw [hj] at hk
  cases hk

/-- So does every point reached by raising it. -/
theorem within_raise (h : t.Presents P) {j : Fin L.columns} (hj : P.allowed j = true) (step : F) :
    P.Within (t.raise j step) := by
  intro k hk
  rw [raise, h.within_solutionAt k hk, h.within_ray hj k hk]
  ring

/-- The basic solution satisfies the equations of the problem. -/
theorem solves_solutionAt (h : t.Presents P) : P.Solves t.solutionAt :=
  (h.holds_iff _ h.within_solutionAt).1 h.canonical.holds_solutionAt

/-- The value of the tableau is the objective at its basic solution. -/
theorem objective_solutionAt (h : t.Presents P) : P.objective t.solutionAt = t.value := by
  rw [← h.objective_eq _ h.within_solutionAt h.solves_solutionAt, h.priced.objectiveAt_solutionAt]

/-- Raising a column outside the basis stays on the equations, however far it goes. -/
theorem solves_raise (h : t.Presents P) {j : Fin L.columns} (hj : P.allowed j = true)
    (hb : t.isBasic j = false) (step : F) : P.Solves (t.raise j step) :=
  (h.holds_iff _ (h.within_raise hj step)).1 (h.canonical.holds_raise hb step)

/-- On the way the objective changes by the relative cost of the column for each unit. -/
theorem objective_raise (h : t.Presents P) {j : Fin L.columns} (hj : P.allowed j = true)
    (hb : t.isBasic j = false) (step : F) :
    P.objective (t.raise j step) = t.value + step * t.cost j := by
  rw [← h.objective_eq _ (h.within_raise hj step) (h.solves_raise hj hb step),
    h.priced.objectiveAt_raise hb]

/-! ## A pivot presents the same problem -/

/-- A pivot in an allowed column presents the same problem, if no right-hand side comes out negative. -/
theorem pivot [LinearOrder F] (h : t.Presents P) (eps : F) {j : Fin L.columns} {i : Fin m}
    (hj : P.allowed j = true) (hij : t.entry i j ≠ 0)
    (hl : ∀ r, r ≠ i → 0 ≤ t.levelAfter j i r) : (t.pivot eps j i).Presents P where
  canonical := h.canonical.pivot eps hij
  priced := h.priced.pivot h.canonical eps hij
  eligible k := by
    rw [← h.eligible k, isEligible, eligible_pivot]
    rfl
  basic_allowed k := by
    by_cases hk : k = i
    · rw [hk, basic_pivot_self]; exact hj
    · rw [basic_pivot_of_ne t eps j hk]; exact h.basic_allowed k
  holds_iff x hx := (t.holds_pivot_iff eps hij hl).trans (h.holds_iff x hx)
  objective_eq x hx hs := by
    rw [t.objectiveAt_pivot eps hij ((h.holds_iff x hx).2 hs)]
    exact h.objective_eq x hx hs

/-! ## The basis determines the tableau -/

section Unique

variable {u : Tableau F L m} (h : t.Presents P) (hu : u.Presents P) (hb : t.basic = u.basic)

include hb in
omit [Field F] in
/-- The same columns are basic. -/
theorem isBasic_eq (j : Fin L.columns) : t.isBasic j = u.isBasic j := by
  rw [isBasic, isBasic, rowOf?, rowOf?, hb]

include h hu hb

/-- The basic solution of one tableau is that of the other. -/
theorem solutionAt_eq : t.solutionAt = u.solutionAt := by
  refine hu.canonical.eq_solutionAt ?_ ?_
  · exact (hu.holds_iff _ h.within_solutionAt).2 h.solves_solutionAt
  · intro k hk
    exact solutionAt_of_not_basic ((isBasic_eq hb k).trans hk)

/-- The levels are the values of the basic variables, so they are the same. -/
theorem level_eq (i : Fin m) : t.level i = u.level i := by
  rw [← h.canonical.solutionAt_basic, ← hu.canonical.solutionAt_basic, solutionAt_eq h hu hb, hb]

/-- The value is the objective at the basic solution. -/
theorem value_eq : t.value = u.value := by
  rw [← h.objective_solutionAt, ← hu.objective_solutionAt, solutionAt_eq h hu hb]

/-- Going along an allowed column outside the basis leads to the same points. -/
theorem raise_eq {j : Fin L.columns} (hj : P.allowed j = true) (hn : t.isBasic j = false)
    (step : F) : t.raise j step = u.raise j step := by
  have hn' : u.isBasic j = false := (isBasic_eq hb j).symm.trans hn
  refine hu.canonical.eq_of_holds ?_ (hu.canonical.holds_raise hn' step) fun k hk => ?_
  · exact (hu.holds_iff _ (h.within_raise hj step)).2 (h.solves_raise hj hn step)
  · have hk' : t.isBasic k = false := (isBasic_eq hb k).trans hk
    rw [raise, raise, solutionAt_of_not_basic hk', solutionAt_of_not_basic hk,
      ray_of_not_basic hk', ray_of_not_basic hk]

/-- The entries of a column are what raising it takes from the basic variables. -/
theorem entry_eq {j : Fin L.columns} (hj : P.allowed j = true) (i : Fin m) :
    t.entry i j = u.entry i j := by
  rcases t.basic_or_not j with ⟨k, rfl⟩ | hn
  · rw [h.canonical i k, hb, hu.canonical i k]
  · -- one step along the column takes the entry away from the level of the row
    have hstep := congrFun (raise_eq h hu hb hj hn 1) (t.basic i)
    rw [raise, h.canonical.solutionAt_basic, h.canonical.ray_basic, hb, raise,
      hu.canonical.solutionAt_basic, hu.canonical.ray_basic, level_eq h hu hb] at hstep
    linear_combination -hstep

/-- A relative cost is what raising the column by one adds to the objective. -/
theorem cost_eq {j : Fin L.columns} (hj : P.allowed j = true) : t.cost j = u.cost j := by
  rcases t.basic_or_not j with ⟨k, rfl⟩ | hn
  · rw [h.priced k, hb, hu.priced k]
  · have hstep := h.objective_raise hj hn 1
    rw [raise_eq h hu hb hj hn, hu.objective_raise hj ((isBasic_eq hb j).symm.trans hn),
      value_eq h hu hb] at hstep
    linear_combination -hstep

end Unique

end Presents

/-! ## Feasible tableaux -/

section

variable [LinearOrder F]

/-- No right-hand side is negative, so the basic solution is not negative either. -/
def Feasible (t : Tableau F L m) : Prop := ∀ i, 0 ≤ t.level i

/-- With nonnegative levels no value of the basic solution is negative. -/
theorem Feasible.solutionAt_nonneg {t : Tableau F L m} (h : t.Feasible) (j : Fin L.columns) :
    0 ≤ t.solutionAt j := by
  rw [solutionAt]
  cases hj : t.rowOf? j with
  | none => exact le_refl 0
  | some i => exact h i

/-- The basic solution of a feasible tableau is a point of the problem. -/
theorem Presents.point_solutionAt {P : Problem F L} {t : Tableau F L m} (h : t.Presents P)
    (hf : t.Feasible) : P.Point t.solutionAt :=
  ⟨h.within_solutionAt, h.solves_solutionAt, hf.solutionAt_nonneg⟩

end

end Tableau

end Simplex
