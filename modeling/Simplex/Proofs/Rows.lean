/-
  The rows of a program, over numbers of any kind.

  The first tableau of a program is laid out by counting, and what stands where does not depend on how its numbers are
  computed.

  1. `Layout.initialColumn_injective`, `Layout.of_surplusColumn?_eq_some` — the columns beside the decision variables
     do not get in each other's way.
  2. `Program.WellFormed` — there is a variable, no constraint mentions another one, and all numbers are finite;
     `Program.fault?_eq_none_iff` — nothing is wrong with exactly these programs.
  3. `Constraint.oriented_eq` — a constraint that is turned around has the sign of all its numbers changed and faces
     the other way.
  4. `Program.statedWith` — the constraints behind the rows of one relation, as they were stated.
  5. `Program.rowConstraint` — the oriented constraint of a row, and `Program.level_eq_rhs`, `Program.entry_eq` — the
     cells of the row.
-/
import Mathlib.Data.List.GetD
import Simplex.StandardForm

namespace Simplex

variable {F : Type} [Scalar F]

/-! ## Columns beside the decision variables -/

namespace Layout

variable (L : Layout) {i : Nat}

/-- There is a column for the slack or surplus of each row that has one. -/
theorem decision_add_lt (h : i < L.less + L.greater) : L.decision + i < L.columns := by
  simp only [columns]
  omega

/-- The slack or surplus column of a row that has one. -/
def gapColumn (i : Nat) (h : i < L.less + L.greater) : Fin L.columns :=
  ⟨L.decision + i, L.decision_add_lt h⟩

/-- A row with a slack variable starts with it. -/
theorem initialColumn_of_less (h : i < L.less) : L.initialColumn i = L.decision + i := by
  rw [initialColumn, if_pos h]
  rfl

/-- All other rows start with their artificial variable. -/
theorem initialColumn_of_artificial (h : L.less ≤ i) :
    L.initialColumn i = L.startOf .artificial + (i - L.less) := by
  rw [initialColumn, if_neg (Nat.not_lt.2 h)]

/-- A row with a slack variable has no surplus variable. -/
theorem surplusColumn?_of_less (h : i < L.less) : L.surplusColumn? i = none := by
  rw [surplusColumn?, if_neg]
  rintro ⟨hle, -⟩
  exact absurd h (Nat.not_lt.2 hle)

/-- Slack and surplus columns follow the decision columns in the order of their rows, without a gap. -/
theorem surplusColumn?_of_greater (h : L.less ≤ i) (h' : i < L.less + L.greater) :
    L.surplusColumn? i = some (L.decision + i) := by
  rw [surplusColumn?, if_pos ⟨h, h'⟩]
  simp only [startOf, Option.some.injEq]
  omega

/-- The row of an equation has neither. -/
theorem surplusColumn?_of_equal (h : L.less + L.greater ≤ i) : L.surplusColumn? i = none := by
  rw [surplusColumn?, if_neg]
  rintro ⟨-, hlt⟩
  exact absurd hlt (Nat.not_lt.2 h)

/-- No decision variable is in the first basis. -/
theorem decision_le_initialColumn (i : Nat) : L.decision ≤ L.initialColumn i := by
  simp only [initialColumn, startOf]
  split <;> omega

/-- The first basis has a column for every row. -/
theorem initialColumn_injective : Function.Injective L.initialColumn := by
  intro i k hik
  simp only [initialColumn, startOf] at hik
  split at hik <;> split at hik <;> omega

theorem basisColumn_injective : Function.Injective L.basisColumn := by
  intro i k h
  exact Fin.ext (L.initialColumn_injective (congrArg Fin.val h))

/-- A surplus column is neither a decision column nor in the first basis. -/
theorem of_surplusColumn?_eq_some {j : Nat} (h : L.surplusColumn? i = some j) :
    L.decision ≤ j ∧ ∀ k, j ≠ L.initialColumn k := by
  rw [surplusColumn?] at h
  split at h
  · rename_i hge
    obtain ⟨hle, hlt⟩ : L.less ≤ i ∧ i < L.less + L.greater := hge
    have hj := Option.some.inj h
    simp only [startOf] at hj
    refine ⟨by omega, fun k => ?_⟩
    simp only [initialColumn, startOf]
    split <;> omega
  · cases h

/-- A row without a slack starts with an artificial variable. -/
theorem isArtificial_initialColumn (h : L.less ≤ i) : L.isArtificial (L.initialColumn i) = true := by
  rw [isArtificial_iff, L.initialColumn_of_artificial h]
  exact Nat.le_add_right ..

/-- The rows behind those with a slack variable start with an artificial one. -/
theorem isArtificial_basisColumn {i : Fin L.rows} (h : L.less ≤ i.val) :
    L.isArtificial (L.basisColumn i) = true :=
  L.isArtificial_initialColumn h

theorem length_row (i : Nat) (coefficients : List F) : (L.row i coefficients).length = L.columns := by
  rw [row, List.length_map, List.length_range]

/-- The cells of a laid out row: one in the column it starts with, minus one in its surplus column, and its
    coefficients elsewhere, zeros where there are none. -/
theorem getD_row (i : Nat) (coefficients : List F) {j : Nat} (hj : j < L.columns) :
    (L.row i coefficients).getD j 0 =
      if j = L.initialColumn i then 1
      else if L.surplusColumn? i = some j then -1
      else coefficients.getD j 0 := by
  rw [row, List.getD_eq_getElem?_getD, List.getElem?_map, List.getElem?_range hj]
  rfl

end Layout

/-! ## What is refused -/

/-- Nothing is wrong with the costs exactly when all of them are finite. -/
theorem costFault?_eq_none_iff {cost : List F} :
    costFault? cost = none ↔ ∀ c ∈ cost, Scalar.isFinite c = true := by
  rw [costFault?, Option.map_eq_none_iff, find?_zipIdx_eq_none_iff (fun c => !Scalar.isFinite c) fun _ _ => rfl]
  simp

/-- Nothing is wrong with a constraint exactly if it has no more coefficients than there are variables and all its
    numbers are finite. -/
theorem Constraint.fault?_eq_none_iff {n i : Nat} {c : Constraint F} : c.fault? n i = none ↔
    c.coefficients.length ≤ n ∧ (∀ a ∈ c.coefficients, Scalar.isFinite a = true) ∧ Scalar.isFinite c.rhs = true := by
  rw [fault?]
  by_cases hlong : n < c.coefficients.length
  · rw [if_pos hlong]
    exact ⟨fun h => (nomatch h), fun h => absurd h.1 (Nat.not_le.2 hlong)⟩
  · rw [if_neg hlong]
    simp [Nat.not_lt.1 hlong]

namespace Program

/-- There is a variable, no constraint has a coefficient for another one, and all numbers are finite. -/
structure WellFormed (p : Program F) : Prop where
  cost_ne_nil : p.cost ≠ []
  cost_finite : ∀ c ∈ p.cost, Scalar.isFinite c = true
  length_le : ∀ c ∈ p.constraints, c.coefficients.length ≤ p.variableCount
  coefficients_finite : ∀ c ∈ p.constraints, ∀ a ∈ c.coefficients, Scalar.isFinite a = true
  rhs_finite : ∀ c ∈ p.constraints, Scalar.isFinite c.rhs = true

/-- Nothing is wrong with a program exactly when it is well-formed. -/
theorem fault?_eq_none_iff {p : Program F} : p.fault? = none ↔ p.WellFormed := by
  rw [fault?]
  by_cases hempty : p.cost.isEmpty = true
  · rw [if_pos hempty]
    exact ⟨fun h => (nomatch h), fun h => absurd (List.isEmpty_iff.1 hempty) h.cost_ne_nil⟩
  · rw [if_neg hempty, Option.or_eq_none_iff, costFault?_eq_none_iff, List.findSome?_eq_none_iff]
    constructor
    · rintro ⟨hcost, hconstraints⟩
      have hgood : ∀ c ∈ p.constraints, c.coefficients.length ≤ p.variableCount ∧
          (∀ a ∈ c.coefficients, Scalar.isFinite a = true) ∧ Scalar.isFinite c.rhs = true := by
        intro c hc
        obtain ⟨k, hk⟩ := List.mem_iff_getElem?.1 hc
        exact Constraint.fault?_eq_none_iff.1 (hconstraints (c, k) (List.mk_mem_zipIdx_iff_getElem?.2 hk))
      exact ⟨fun h => hempty (List.isEmpty_iff.2 h), hcost, fun c hc => (hgood c hc).1,
        fun c hc => (hgood c hc).2.1, fun c hc => (hgood c hc).2.2⟩
    · intro h
      refine ⟨h.cost_finite, ?_⟩
      rintro ⟨c, k⟩ hmem
      have hc : c ∈ p.constraints := List.mem_of_getElem? (List.mk_mem_zipIdx_iff_getElem?.1 hmem)
      exact Constraint.fault?_eq_none_iff.2 ⟨h.length_le c hc, h.coefficients_finite c hc, h.rhs_finite c hc⟩

instance (p : Program F) : Decidable p.WellFormed :=
  decidable_of_iff (p.fault?.isNone = true) (Option.isNone_iff_eq_none.trans fault?_eq_none_iff)

end Program

/-! ## Constraints turned around -/

namespace Constraint

/-- A number of the constraint, with its sign changed if the right-hand side is negative. -/
def turned (c : Constraint F) (x : F) : F := if c.rhs < 0 then -x else x

/-- The relation of the constraint once its right-hand side is not negative. -/
def facing (c : Constraint F) : Relation := if c.rhs < 0 then c.relation.flip else c.relation

/-- Orienting a constraint turns all its numbers, and nothing else. -/
theorem oriented_eq (c : Constraint F) (n : Nat) :
    c.oriented n = ⟨(c.padded n).map c.turned, c.facing, c.turned c.rhs⟩ := by
  by_cases hneg : c.rhs < 0
  · have hturned : c.turned = fun x => -x := funext fun x => if_pos hneg
    rw [oriented, if_pos hneg, facing, if_pos hneg, hturned]
  · have hturned : c.turned = id := funext fun x => if_neg hneg
    rw [oriented, if_neg hneg, facing, if_neg hneg, hturned, List.map_id]
    rfl

/-- Coefficients are filled up to one for each variable. -/
theorem length_padded {n : Nat} {c : Constraint F} (h : c.coefficients.length ≤ n) : (c.padded n).length = n := by
  rw [padded, List.length_append, List.length_replicate]
  omega

/-- Coefficients that are left out are zero. -/
theorem getElem?_padded {n : Nat} {c : Constraint F} (h : c.coefficients.length ≤ n) {j : Nat} (hj : j < n) :
    (c.padded n)[j]? = some (c.coefficients.getD j 0) := by
  rcases Nat.lt_or_ge j c.coefficients.length with hlt | hge
  · rw [padded, List.getElem?_append_left hlt, List.getElem?_eq_getElem hlt, List.getD_eq_getElem _ _ hlt]
  · rw [padded, List.getElem?_append_right hge, List.getElem?_replicate, if_pos (by omega),
      List.getD_eq_default _ _ hge]

end Constraint

/-! ## The rows of a program -/

namespace Program

variable {p : Program F}

/-- The stated constraints whose rows have the given relation, in the stated order. -/
def statedWith (p : Program F) (r : Relation) : List (Constraint F) :=
  p.constraints.filter fun c => (c.oriented p.variableCount).relation = r

/-- The oriented constraints of one relation are the stated ones behind them, turned one by one. -/
theorem orientedWith_eq_map (p : Program F) (r : Relation) :
    p.orientedWith r = (p.statedWith r).map (·.oriented p.variableCount) := by
  rw [orientedWith, oriented, List.filter_map]
  rfl

/-- Putting the constraints in the order of the rows neither drops nor adds one. -/
theorem mem_ordered_iff {p : Program F} {c : Constraint F} : c ∈ p.ordered ↔ c ∈ p.oriented := by
  simp only [ordered, orientedWith, List.mem_append, List.mem_filter, decide_eq_true_iff]
  cases hc : c.relation <;> simp

/-- Each oriented constraint has a row of its own. -/
theorem length_ordered (p : Program F) : p.ordered.length = p.layout.rows := by
  simp only [ordered, List.length_append]
  rfl

/-- The oriented constraint of a row. -/
def rowConstraint (p : Program F) (i : Fin p.layout.rows) : Constraint F :=
  p.ordered.get (i.cast p.length_ordered.symm)

theorem rowConstraint_mem (p : Program F) (i : Fin p.layout.rows) :
    p.rowConstraint i ∈ p.ordered := List.get_mem ..

theorem getElem?_ordered (p : Program F) (i : Fin p.layout.rows) :
    p.ordered[i.val]? = some (p.rowConstraint i) := by
  simp [rowConstraint]

/-- Every oriented constraint is that of a row. -/
theorem exists_rowConstraint {c : Constraint F} (h : c ∈ p.ordered) :
    ∃ i, p.rowConstraint i = c := by
  obtain ⟨k, hk⟩ := List.mem_iff_get.1 h
  exact ⟨k.cast p.length_ordered, hk⟩

theorem relation_of_mem_orientedWith {c : Constraint F} {r : Relation}
    (h : c ∈ p.orientedWith r) : c.relation = r := by
  have := (List.mem_filter.1 h).2
  simpa using this

/-- The first rows are the constraints with at most, in their order. -/
theorem getElem?_orientedWith_of_less {i : Fin p.layout.rows} (h : i.val < p.layout.less) :
    (p.orientedWith .le)[i.val]? = some (p.rowConstraint i) := by
  have hget := p.getElem?_ordered i
  rw [ordered, List.append_assoc, List.getElem?_append_left h] at hget
  exact hget

/-- The rows after them are the constraints with at least, in their order. -/
theorem getElem?_orientedWith_of_greater {i : Fin p.layout.rows} (h : p.layout.less ≤ i.val)
    (h' : i.val < p.layout.less + p.layout.greater) :
    (p.orientedWith .ge)[i.val - p.layout.less]? = some (p.rowConstraint i) := by
  have hget := p.getElem?_ordered i
  rw [ordered, List.append_assoc, List.getElem?_append_right h,
    List.getElem?_append_left (by exact Nat.sub_lt_left_of_lt_add h h')] at hget
  exact hget

/-- The relation of a row is that of its place. -/
theorem relation_rowConstraint_of_less {i : Fin p.layout.rows} (h : i.val < p.layout.less) :
    (p.rowConstraint i).relation = .le :=
  relation_of_mem_orientedWith (List.mem_of_getElem? (getElem?_orientedWith_of_less h))

theorem relation_rowConstraint_of_greater {i : Fin p.layout.rows} (h : p.layout.less ≤ i.val)
    (h' : i.val < p.layout.less + p.layout.greater) : (p.rowConstraint i).relation = .ge :=
  relation_of_mem_orientedWith (List.mem_of_getElem? (getElem?_orientedWith_of_greater h h'))

/-- And the last rows are the equations. -/
theorem relation_rowConstraint_of_equal {i : Fin p.layout.rows}
    (h : p.layout.less + p.layout.greater ≤ i.val) : (p.rowConstraint i).relation = .eq := by
  have hget := p.getElem?_ordered i
  have hle : (p.orientedWith .le ++ p.orientedWith .ge).length ≤ i.val := by
    rw [List.length_append]
    exact h
  rw [ordered, List.getElem?_append_right hle] at hget
  exact relation_of_mem_orientedWith (List.mem_of_getElem? hget)

/-- The rows handed over are the constraints of the rows, laid out. -/
theorem getElem?_rows (p : Program F) (i : Fin p.layout.rows) :
    p.rows[i.val]? = some (p.layout.row i (p.rowConstraint i).coefficients) := by
  rw [rows, List.getElem?_map, List.getElem?_zipIdx, p.getElem?_ordered]
  simp

/-! ## The cells of the first tableau -/

section Cells

variable {t : Tableau F p.layout p.layout.rows}

theorem fault?_eq_none (ht : p.tableau.result = .ok t) : p.fault? = none := by
  rw [tableau] at ht
  split at ht
  · cases ht
  · assumption

/-- The tableau of a program that is accepted was accepted row by row. -/
theorem ofRows_eq_ok (ht : p.tableau.result = .ok t) :
    Tableau.ofRows p.layout p.rows p.levels = .ok t := by
  rw [tableau, fault?_eq_none ht] at ht
  exact ht

/-- It is the one laid out from the rows of the program, so that it can be computed. -/
theorem eq_fill (ht : p.tableau.result = .ok t) : t = .fill p.layout p.rows p.levels :=
  (Tableau.ofRows_eq_ok_iff.1 (ofRows_eq_ok ht)).2.symm

theorem length_rowConstraint_le (h : p.fault? = none) (i : Fin p.layout.rows) :
    (p.rowConstraint i).coefficients.length ≤ p.layout.decision := by
  obtain ⟨c, hc, hrow⟩ := List.mem_map.1 (mem_ordered_iff.1 (p.rowConstraint_mem i))
  have hlen := (fault?_eq_none_iff.1 h).length_le c hc
  rw [← hrow, Constraint.oriented_eq, List.length_map, Constraint.length_padded hlen]
  exact Nat.le_refl _

/-- The level of a row is the right-hand side of its constraint, after it was turned around. -/
theorem level_eq_rhs (ht : p.tableau.result = .ok t) (i : Fin p.layout.rows) :
    t.level i = (p.rowConstraint i).rhs := by
  rw [eq_fill ht, Tableau.level_fill, levels, List.getD_eq_getElem?_getD, List.getElem?_map,
    p.getElem?_ordered]
  rfl

/-- The cells of the first tableau, from the constraint of the row and the places of its slack, surplus and artificial
    variables. -/
theorem entry_eq (ht : p.tableau.result = .ok t) (i : Fin p.layout.rows)
    (j : Fin p.layout.columns) : t.entry i j =
      if j.val = p.layout.initialColumn i then 1
      else if p.layout.surplusColumn? i = some j.val then -1
      else (p.rowConstraint i).coefficients.getD j 0 := by
  have hrow : p.rows.getD i [] = p.layout.row i (p.rowConstraint i).coefficients := by
    rw [List.getD_eq_getElem?_getD, p.getElem?_rows, Option.getD_some]
  rw [eq_fill ht, Tableau.entry_fill, hrow, p.layout.getD_row _ _ j.isLt]

end Cells

end Program

end Simplex
