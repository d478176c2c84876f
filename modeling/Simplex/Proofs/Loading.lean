/-
  Loading an objective expresses it in the current basis.

  1. `Problem.artificial` — minimise the sum of the artificial variables over the solutions of a tableau, and
     `Presents.loadArtificial` — a tableau whose artificial variables are basic in their own rows presents it
     after `loadArtificial`.
  2. `Problem.program` — minimise the (oriented) cost of the decision variables over the solutions in which no
     artificial variable takes part, and `Presents.loadCost` — a tableau without artificial basic variables
     presents it after `loadCost`.

  Both loads take multiples of rows away from plain costs, which changes nothing on the solutions.  What has to
  be watched are the basic columns: a row is zero in the basic columns of all other rows, so what one step has
  cleared stays clear.
-/
import Simplex.Proofs.Presentation

namespace Simplex

variable {F : Type} [Field F] [LinearOrder F] {L : Layout} {m : Nat}

/-! ## The artificial cost -/

/-- The sum of the artificial variables. -/
def Layout.artificialSum (L : Layout) (x : Fin L.columns → F) : F :=
  ∑ j : Fin L.columns, if L.isArtificial j = true then x j else 0

/-- Every artificial variable is zero. -/
def Layout.WithoutArtificials (L : Layout) (x : Fin L.columns → F) : Prop :=
  ∀ j : Fin L.columns, L.isArtificial j = true → x j = 0

/-- Minimise the sum of the artificial variables over the solutions of `t`. -/
def Problem.artificial (t : Tableau F L m) : Problem F L where
  allowed _ := true
  Solves := t.Holds
  objective := L.artificialSum

omit [LinearOrder F] in
theorem Problem.within_artificial (t : Tableau F L m) (x : Fin L.columns → F) :
    (Problem.artificial t).Within x := by
  intro j hj
  cases hj

namespace Tableau

variable {t : Tableau F L m}

theorem cell_artificialCost (j : Fin L.columns) :
    (artificialCost : Line F L.columns).cell j = if L.isArtificial j = true then 1 else 0 := by
  simp [artificialCost, Line.cell, get_eq_getElem]

/-- The artificial cost of a point is the sum of its artificial variables. -/
theorem excess_artificialCost (x : Fin L.columns → F) :
    (artificialCost : Line F L.columns).excess x = L.artificialSum x := by
  have hrhs : (artificialCost : Line F L.columns).rhs = 0 := rfl
  rw [Line.excess, hrhs, sub_zero, Line.eval, Layout.artificialSum]
  refine Finset.sum_congr rfl ?_
  intro j _
  rw [cell_artificialCost, ite_mul, one_mul, zero_mul]

/-- Taking rows away changes nothing on the solutions. -/
theorem excess_foldl_subtract {x : Fin L.columns → F} (hx : t.Holds x) :
    ∀ (is : List (Fin m)) (line : Line F L.columns),
      (is.foldl (fun line i => line.subtract 1 (t.row i).line) line).excess x = line.excess x
  | [], _ => rfl
  | i :: is, line => by
    rw [List.foldl_cons, excess_foldl_subtract hx is, Line.excess_subtract,
      holds_iff_excess.1 hx i]
    ring

/-- Taking some rows away, each once, lowers the cost of a basic column by one if its row is among them. -/
theorem Canonical.cell_foldl_subtract (h : t.Canonical) (k : Fin m) :
    ∀ (is : List (Fin m)) (line : Line F L.columns), is.Nodup →
      (is.foldl (fun line i => line.subtract 1 (t.row i).line) line).cell (t.basic k) =
        line.cell (t.basic k) - if k ∈ is then 1 else 0
  | [], line, _ => by simp
  | i :: is, line, hnodup => by
    obtain ⟨hi, hrest⟩ := List.nodup_cons.1 hnodup
    have hrow : (t.row i).line.cell (t.basic k) = if i = k then 1 else 0 := h i k
    rw [List.foldl_cons, cell_foldl_subtract h k is _ hrest, Line.cell_subtract, hrow]
    by_cases hik : i = k
    · rw [if_pos hik, if_neg (hik ▸ hi), if_pos (by rw [hik]; exact List.mem_cons_self ..)]
      ring
    · have hmem : k ∈ i :: is ↔ k ∈ is := by simp [Ne.symm hik]
      rw [if_neg hik, if_congr hmem rfl rfl]
      ring

theorem mem_artificialRows {i : Fin m} : i ∈ artificialRows L m ↔ L.less ≤ i.val := by
  simp [artificialRows, List.mem_filter, List.mem_finRange]

theorem nodup_artificialRows : (artificialRows L m).Nodup := (List.nodup_finRange m).filter _

/-- Where the artificial variables are basic in their own rows, taking these rows away clears all basic columns. -/
theorem Canonical.priced_loadArtificial (h : t.Canonical)
    (hb : ∀ i, L.isArtificial (t.basic i) = true ↔ L.less ≤ i.val) : t.loadArtificial.Priced := by
  intro k
  have hcell := h.cell_foldl_subtract k (artificialRows L m) artificialCost nodup_artificialRows
  rw [cell_artificialCost, if_congr (hb k) rfl rfl, if_congr mem_artificialRows rfl rfl, sub_self] at hcell
  exact hcell

/-- On the solutions, the loaded objective is the sum of the artificial variables. -/
theorem objectiveAt_loadArtificial {x : Fin L.columns → F} (hx : t.Holds x) :
    t.loadArtificial.objectiveAt x = L.artificialSum x := by
  rw [objectiveAt_eq_excess]
  exact (excess_foldl_subtract hx _ _).trans (excess_artificialCost x)

/-- A tableau whose artificial variables are basic in their own rows presents the artificial problem. -/
theorem Presents.loadArtificial (hc : t.Canonical)
    (hb : ∀ i, L.isArtificial (t.basic i) = true ↔ L.less ≤ i.val)
    (he : ∀ j, t.isEligible j = true) : t.loadArtificial.Presents (.artificial t) where
  canonical := hc
  priced := hc.priced_loadArtificial hb
  eligible := he
  basic_allowed _ := rfl
  holds_iff _ _ := Iff.rfl
  objective_eq _ _ hx := objectiveAt_loadArtificial hx

/-! ## The cost of a program -/

end Tableau

/-- Minimise the oriented cost of the decision variables over the points in `solutions` in which no artificial
    variable takes part. -/
def Problem.program (solutions : (Fin L.columns → F) → Prop) (direction : Direction)
    (cost : Vector F L.decision) : Problem F L where
  allowed j := !L.isArtificial j
  Solves := solutions
  objective := (Tableau.decisionCost direction cost).eval

/-- In the second phase only artificial columns may not be used. -/
theorem Problem.within_program_iff {solutions : (Fin L.columns → F) → Prop} {direction : Direction}
    {cost : Vector F L.decision} {x : Fin L.columns → F} :
    (Problem.program solutions direction cost).Within x ↔ L.WithoutArtificials x := by
  simp [Problem.Within, Problem.program, Layout.WithoutArtificials]

namespace Tableau

variable {t : Tableau F L m}

/-- Reducing goes through the rows in order. -/
theorem reduce_eq_foldl (t : Tableau F L m) (line : Line F L.columns) : t.reduce line =
    (List.finRange m).foldl (fun line i => line.eliminate (t.basic i) (t.row i).line) line := by
  rw [reduce, toList_rows, List.foldl_map]
  rfl

omit [LinearOrder F] in
theorem Canonical.cell_basic_self (h : t.Canonical) (i : Fin m) :
    (t.row i).line.cell (t.basic i) = 1 :=
  (h i i).trans (if_pos rfl)

/-- What is clear stays clear. -/
theorem Canonical.cell_foldl_eliminate_of_eq_zero (h : t.Canonical) {k : Fin m} :
    ∀ (is : List (Fin m)) (line : Line F L.columns), line.cell (t.basic k) = 0 →
      (is.foldl (fun line i => line.eliminate (t.basic i) (t.row i).line) line).cell
        (t.basic k) = 0
  | [], _, hline => hline
  | i :: is, line, hline => by
    rw [List.foldl_cons]
    refine cell_foldl_eliminate_of_eq_zero h is _ ?_
    have hrow : (t.row i).line.cell (t.basic k) = if i = k then 1 else 0 := h i k
    rw [Line.cell_eliminate _ (h.cell_basic_self i), hline, hrow]
    by_cases hik : i = k
    · rw [hik, hline]
      ring
    · rw [if_neg hik]
      ring

/-- The basic columns of the rows gone through are clear. -/
theorem Canonical.cell_foldl_eliminate (h : t.Canonical) {k : Fin m} :
    ∀ (is : List (Fin m)) (line : Line F L.columns), k ∈ is →
      (is.foldl (fun line i => line.eliminate (t.basic i) (t.row i).line) line).cell
        (t.basic k) = 0
  | i :: is, line, hk => by
    rw [List.foldl_cons]
    rcases List.mem_cons.1 hk with rfl | hk
    · refine h.cell_foldl_eliminate_of_eq_zero is _ ?_
      rw [Line.cell_eliminate _ (h.cell_basic_self k), h.cell_basic_self k]
      ring
    · exact cell_foldl_eliminate h is _ hk

/-- On solutions of the rows, eliminating basic columns does not change what the objective says. -/
theorem Canonical.excess_foldl_eliminate (h : t.Canonical) {x : Fin L.columns → F}
    (hx : t.Holds x) : ∀ (is : List (Fin m)) (line : Line F L.columns),
      (is.foldl (fun line i => line.eliminate (t.basic i) (t.row i).line) line).excess x =
        line.excess x
  | [], _ => rfl
  | i :: is, line => by
    rw [List.foldl_cons, excess_foldl_eliminate h hx is,
      Line.excess_eliminate _ (h.cell_basic_self i), holds_iff_excess.1 hx i]
    ring

/-- Reducing goes through all rows, so every basic column is clear after it. -/
theorem Canonical.priced_loadCost (h : t.Canonical) (direction : Direction) (cost : Vector F L.decision) :
    (t.loadCost direction cost).Priced := by
  intro k
  show (t.reduce (decisionCost direction cost)).cell (t.basic k) = 0
  rw [reduce_eq_foldl]
  exact h.cell_foldl_eliminate _ _ (List.mem_finRange k)

/-- On the solutions, the loaded objective is the oriented cost. -/
theorem Canonical.objectiveAt_loadCost (h : t.Canonical) (direction : Direction) (cost : Vector F L.decision)
    {x : Fin L.columns → F} (hx : t.Holds x) :
    (t.loadCost direction cost).objectiveAt x = (decisionCost direction cost).eval x := by
  have hrhs : (decisionCost direction cost : Line F L.columns).rhs = 0 := rfl
  rw [objectiveAt_eq_excess]
  show (t.reduce (decisionCost direction cost)).excess x = (decisionCost direction cost).eval x
  rw [reduce_eq_foldl, h.excess_foldl_eliminate hx, Line.excess, hrhs, sub_zero]

/-- A tableau without artificial basic variables presents the problem of the program after its cost is
    loaded. -/
theorem Presents.loadCost (hc : t.Canonical) (hb : ∀ i, L.isArtificial (t.basic i) = false)
    (he : ∀ j, t.isEligible j = true) {solutions : (Fin L.columns → F) → Prop}
    (direction : Direction) (cost : Vector F L.decision)
    (hs : ∀ x, L.WithoutArtificials x → (t.Holds x ↔ solutions x)) :
    (t.loadCost direction cost).Presents (.program solutions direction cost) where
  canonical := hc
  priced := hc.priced_loadCost direction cost
  eligible j := by
    rw [isEligible_loadCost, he j, Bool.true_and]
    rfl
  basic_allowed i := by
    show (!L.isArtificial (t.basic i)) = true
    rw [hb i]
    rfl
  holds_iff x hx := hs x (Problem.within_program_iff.1 hx)
  objective_eq x hx hsol := hc.objectiveAt_loadCost direction cost ((hs x (Problem.within_program_iff.1 hx)).2 hsol)

end Tableau

end Simplex
