/-
  The first tableau says what the program says.

  1. `Tableau.Fits` — what is asked of rows, `Tableau.fault?_eq_none_iff_fits` — it is what is looked at, and
     `Tableau.Fresh.of_ofRows` — rows that are accepted make a tableau before any pivot.
  2. `Program.eval_row` — the left side of a row is that of its constraint, plus the variable that is basic in it
     at first, less the surplus variable if there is one; `Program.row_cases` — the three kinds of rows.
  3. `Program.eval_row_eq_level_iff` — a row holds exactly if its constraint does and its slack or surplus is what the
     constraint leaves.  So a nonnegative solution without artificial variables satisfies every constraint
     (`Program.feasible_of_point`).
  4. `Program.exists_point` — and every feasible choice of the decision variables comes from such a solution
     (`Program.extend`): every slack or surplus is set to what its constraint leaves.
  5. `Program.objective_posed` — the objective is the cost, negated if a maximum is sought.
-/
import Simplex.Proofs.Meaning
import Simplex.Proofs.Phases

namespace Simplex

variable {F : Type} [Field F] [LinearOrder F]

/-! ## Accepted rows -/

namespace Tableau

variable {L : Layout} {rows : List (List F)} {levels : List F}

/-- The rows have the shape of the layout, no right-hand side is negative or infinite, and the columns of the first
    basis are unit columns. -/
structure Fits (L : Layout) (rows : List (List F)) (levels : List F) : Prop where
  length_rows : rows.length = L.rows
  length_levels : levels.length = L.rows
  width : ∀ row ∈ rows, row.length = L.columns
  level : ∀ b ∈ levels, Scalar.isFinite b = true ∧ 0 ≤ b
  unit : ∀ i k : Fin L.rows, (rows.getD i []).getD (L.initialColumn k) 0 = if i = k then 1 else 0

/-- If there are as many rows as the layout has, the columns of the first basis are looked at cell by cell. -/
theorem basisFault?_eq_none_iff_unit (hlen : rows.length = L.rows) : basisFault? L rows = none ↔
    ∀ i k : Fin L.rows, (rows.getD i []).getD (L.initialColumn k) 0 = if i = k then 1 else 0 := by
  have hrow : ∀ i : Fin L.rows, rows[i.val]? = some (rows.getD i []) := by
    intro i
    have hi : i.val < rows.length := hlen.symm ▸ i.isLt
    rw [List.getElem?_eq_getElem hi, List.getD_eq_getElem _ _ hi]
  rw [basisFault?_eq_none_iff]
  constructor
  · intro h i k
    have hcell := isUnitColumn_iff.1 (h k k.isLt) i _ (hrow i)
    rw [beq_iff_eq.1 hcell]
    exact if_congr Fin.val_inj rfl rfl
  · intro h k hk
    refine isUnitColumn_iff.2 ?_
    intro i row hget
    have hi : i < L.rows := hlen ▸ (List.getElem?_eq_some_iff.1 hget).1
    have hsame : rows.getD i [] = row := Option.some.inj ((hrow ⟨i, hi⟩).symm.trans hget)
    have hcell := h ⟨i, hi⟩ ⟨k, hk⟩
    rw [hsame] at hcell
    rw [beq_iff_eq, hcell]
    exact if_congr Fin.mk.inj_iff rfl rfl

/-- Nothing is wrong with rows exactly when they fit. -/
theorem fault?_eq_none_iff_fits : fault? L rows levels = none ↔ Fits L rows levels := by
  simp only [fault?, Option.or_eq_none_iff, countFault?_eq_none_iff, widthFault?_eq_none_iff,
    levelFault?_eq_none_iff, not_lt]
  constructor
  · rintro ⟨⟨hrows, hlevels⟩, hwidth, hlevel, hbasis⟩
    exact ⟨hrows, hlevels, hwidth, hlevel, (basisFault?_eq_none_iff_unit hrows).1 hbasis⟩
  · intro h
    exact ⟨⟨h.length_rows, h.length_levels⟩, h.width, h.level,
      (basisFault?_eq_none_iff_unit h.length_rows).2 h.unit⟩

/-- Rows that are accepted make a tableau before any pivot. -/
theorem Fresh.of_ofRows {t : Tableau F L L.rows} (h : ofRows L rows levels = .ok t) : t.Fresh := by
  obtain ⟨hfault, rfl⟩ := ofRows_eq_ok_iff.1 h
  have hfits := fault?_eq_none_iff_fits.1 hfault
  refine ⟨fun i k => ?_, fun i => ?_, fun j => isEligible_fill .., fun i => ?_⟩
  · rw [entry_fill, basic_fill]
    exact hfits.unit i k
  · have hi : i.val < levels.length := hfits.length_levels.symm ▸ i.isLt
    rw [level_fill, List.getD_eq_getElem _ _ hi]
    exact (hfits.level _ (List.getElem_mem hi)).2
  · rw [basic_fill, Layout.isArtificial_iff]
    simp only [Layout.basisColumn, Layout.initialColumn, Layout.startOf]
    split <;> omega

end Tableau

/-! ## The cells of the first tableau -/

namespace Program

variable {p : Program F}

section Cells

variable {t : Tableau F p.layout p.layout.rows}

/-- A row is its constraint, its first basic column and, taken away, its surplus column. -/
theorem entry_eq_add_sub (ht : p.tableau.result = .ok t) (i : Fin p.layout.rows)
    (j : Fin p.layout.columns) : t.entry i j =
      (p.rowConstraint i).coefficients.getD j 0 + (if j = p.layout.basisColumn i then 1 else 0) -
        (if p.layout.surplusColumn? i = some j.val then 1 else 0) := by
  have hlen := length_rowConstraint_le (fault?_eq_none ht) i
  have hbasis : j = p.layout.basisColumn i ↔ j.val = p.layout.initialColumn i := Fin.ext_iff
  rw [entry_eq ht, if_congr hbasis rfl rfl]
  by_cases hinit : j.val = p.layout.initialColumn i
  · have hnot : ¬ p.layout.surplusColumn? i = some j.val := fun h =>
      (p.layout.of_surplusColumn?_eq_some h).2 _ hinit
    have hzero : (p.rowConstraint i).coefficients.getD j 0 = 0 :=
      List.getD_eq_default _ _ (hlen.trans (hinit ▸ p.layout.decision_le_initialColumn i))
    rw [if_pos hinit, if_pos hinit, if_neg hnot, hzero]
    ring
  · rw [if_neg hinit, if_neg hinit]
    by_cases hsur : p.layout.surplusColumn? i = some j.val
    · have hzero : (p.rowConstraint i).coefficients.getD j 0 = 0 :=
        List.getD_eq_default _ _ (hlen.trans (p.layout.of_surplusColumn?_eq_some hsur).1)
      rw [if_pos hsur, if_pos hsur, hzero]
      ring
    · rw [if_neg hsur, if_neg hsur]
      ring

/-- The left side of a row. -/
theorem eval_row (ht : p.tableau.result = .ok t) (i : Fin p.layout.rows)
    (y : Fin p.layout.columns → F) : (t.row i).line.eval y =
      dot (p.rowConstraint i).coefficients (p.layout.decisions y) + y (p.layout.basisColumn i) -
        ∑ j : Fin p.layout.columns, if p.layout.surplusColumn? i = some j.val then y j else 0 := by
  have hlen := length_rowConstraint_le (fault?_eq_none ht) i
  have hterm : ∀ j : Fin p.layout.columns, t.entry i j * y j =
      (p.rowConstraint i).coefficients.getD j 0 * y j +
        (if j = p.layout.basisColumn i then y j else 0) -
          (if p.layout.surplusColumn? i = some j.val then y j else 0) := by
    intro j
    rw [entry_eq_add_sub ht, sub_mul, add_mul, ite_mul, ite_mul, one_mul, zero_mul]
  show ∑ j, t.entry i j * y j = _
  rw [Finset.sum_congr rfl fun j _ => hterm j, Finset.sum_sub_distrib, Finset.sum_add_distrib,
    Finset.sum_ite_eq', if_pos (Finset.mem_univ _), Layout.decisions, dot_take _ _ hlen, dot_ofFn]

/-- A row with at most: its constraint, with the slack added. -/
theorem eval_row_of_less (ht : p.tableau.result = .ok t) {i : Fin p.layout.rows}
    (h : i.val < p.layout.less) (y : Fin p.layout.columns → F) : (t.row i).line.eval y =
      dot (p.rowConstraint i).coefficients (p.layout.decisions y) +
        y (p.layout.gapColumn i (by omega)) := by
  have hbasis : p.layout.basisColumn i = p.layout.gapColumn i (by omega) :=
    Fin.ext (p.layout.initialColumn_of_less h)
  rw [eval_row ht, p.layout.surplusColumn?_of_less h, hbasis]
  simp

/-- A row with at least: its constraint, with the surplus taken away. -/
theorem eval_row_of_greater (ht : p.tableau.result = .ok t) {i : Fin p.layout.rows}
    (h : p.layout.less ≤ i.val) (h' : i.val < p.layout.less + p.layout.greater)
    {y : Fin p.layout.columns → F} (hy : p.layout.WithoutArtificials y) :
    (t.row i).line.eval y =
      dot (p.rowConstraint i).coefficients (p.layout.decisions y) - y (p.layout.gapColumn i h') := by
  have hsum : (∑ j : Fin p.layout.columns,
      if p.layout.surplusColumn? i = some j.val then y j else 0) = y (p.layout.gapColumn i h') := by
    have hiff : ∀ j : Fin p.layout.columns,
        p.layout.surplusColumn? i = some j.val ↔ p.layout.gapColumn i h' = j := by
      intro j
      rw [p.layout.surplusColumn?_of_greater h h', Option.some.injEq, Fin.ext_iff]
      rfl
    simp only [hiff, Finset.sum_ite_eq, Finset.mem_univ, if_true]
  rw [eval_row ht, hsum, hy _ (p.layout.isArtificial_basisColumn h), add_zero]

/-- A row with equality is its constraint. -/
theorem eval_row_of_equal (ht : p.tableau.result = .ok t) {i : Fin p.layout.rows}
    (h : p.layout.less + p.layout.greater ≤ i.val) {y : Fin p.layout.columns → F}
    (hy : p.layout.WithoutArtificials y) : (t.row i).line.eval y =
      dot (p.rowConstraint i).coefficients (p.layout.decisions y) := by
  rw [eval_row ht, p.layout.surplusColumn?_of_equal h,
    hy _ (p.layout.isArtificial_basisColumn (by omega))]
  simp

/-- What a row can be, where artificial variables are zero: a constraint and its slack, a constraint and its
    surplus, or a constraint alone. -/
theorem row_cases (ht : p.tableau.result = .ok t) (i : Fin p.layout.rows) :
    (∃ h, (p.rowConstraint i).relation = .le ∧ ∀ y, p.layout.WithoutArtificials y →
      (t.row i).line.eval y = dot (p.rowConstraint i).coefficients (p.layout.decisions y) +
        y (p.layout.gapColumn i h)) ∨
    (∃ h, (p.rowConstraint i).relation = .ge ∧ ∀ y, p.layout.WithoutArtificials y →
      (t.row i).line.eval y = dot (p.rowConstraint i).coefficients (p.layout.decisions y) -
        y (p.layout.gapColumn i h)) ∨
    (p.layout.less + p.layout.greater ≤ i.val ∧ (p.rowConstraint i).relation = .eq ∧
      ∀ y, p.layout.WithoutArtificials y →
        (t.row i).line.eval y = dot (p.rowConstraint i).coefficients (p.layout.decisions y)) := by
  rcases lt_or_ge i.val p.layout.less with hless | hless
  · exact Or.inl ⟨by omega, relation_rowConstraint_of_less hless,
      fun y _ => eval_row_of_less ht hless y⟩
  · rcases lt_or_ge i.val (p.layout.less + p.layout.greater) with hgreater | hequal
    · exact Or.inr (Or.inl ⟨hgreater, relation_rowConstraint_of_greater hless hgreater,
        fun y hy => eval_row_of_greater ht hless hgreater hy⟩)
    · exact Or.inr (Or.inr ⟨hequal, relation_rowConstraint_of_equal hequal,
        fun y hy => eval_row_of_equal ht hequal hy⟩)

end Cells

/-! ## Points of the tableau are feasible -/

/-- The costs of all decision variables. -/
def costVector (p : Program F) : Vector F p.layout.decision := ⟨p.cost.toArray, rfl⟩

/-- The problem that the first tableau of the program poses. -/
def posed (p : Program F) (t : Tableau F p.layout p.layout.rows) : Problem F p.layout :=
  .program t.Holds p.direction p.costVector

section Points

variable {t : Tableau F p.layout p.layout.rows} [IsStrictOrderedRing F]

/-- Where artificial variables are zero and its slack or surplus is not negative, a row holds exactly if its constraint
    does and the slack or surplus is what the constraint leaves. -/
theorem eval_row_eq_level_iff (ht : p.tableau.result = .ok t) {y : Fin p.layout.columns → F}
    (hy : p.layout.WithoutArtificials y) {i : Fin p.layout.rows} (h0 : ∀ h, 0 ≤ y (p.layout.gapColumn i h)) :
    (t.row i).line.eval y = t.level i ↔ (p.rowConstraint i).Holds (p.layout.decisions y) ∧
      ∀ h, y (p.layout.gapColumn i h) = (p.rowConstraint i).gap (p.layout.decisions y) := by
  rw [level_eq_rhs ht, Constraint.Holds, Constraint.gap]
  rcases row_cases ht i with ⟨h, hrel, hrow⟩ | ⟨h, hrel, hrow⟩ | ⟨hequal, hrel, hrow⟩
  · rw [hrow y hy, hrel]
    have hslack := h0 h
    constructor
    · intro hi
      have hle : dot (p.rowConstraint i).coefficients (p.layout.decisions y) - (p.rowConstraint i).rhs ≤ 0 := by
        linarith
      rw [abs_of_nonpos hle]
      exact ⟨sub_nonpos.1 hle, fun _ => by linear_combination hi⟩
    · rintro ⟨hle, hgap⟩
      rw [hgap h, abs_of_nonpos (sub_nonpos.2 hle)]
      ring
  · rw [hrow y hy, hrel]
    have hsurplus := h0 h
    constructor
    · intro hi
      have hge : 0 ≤ dot (p.rowConstraint i).coefficients (p.layout.decisions y) - (p.rowConstraint i).rhs := by
        linarith
      rw [abs_of_nonneg hge]
      exact ⟨sub_nonneg.1 hge, fun _ => by linear_combination -hi⟩
    · rintro ⟨hge, hgap⟩
      rw [hgap h, abs_of_nonneg (sub_nonneg.2 hge)]
      ring
  · rw [hrow y hy, hrel]
    constructor
    · intro hi
      exact ⟨hi, fun h => absurd h (not_lt.2 hequal)⟩
    · intro h
      exact h.1

omit [IsStrictOrderedRing F] in
theorem length_decisions (y : Fin p.layout.columns → F) :
    (p.layout.decisions y).length = p.cost.length := by
  rw [Layout.decisions, List.length_take, List.length_ofFn]
  exact min_eq_left p.layout.decision_le_columns

/-- The decision variables of a point of the problem are feasible. -/
theorem feasible_of_point (ht : p.tableau.result = .ok t) {y : Fin p.layout.columns → F}
    (hy : (p.posed t).Point y) : p.Feasible (p.layout.decisions y) where
  length_eq := length_decisions y
  nonneg v hv := by
    obtain ⟨j, rfl⟩ := List.mem_ofFn.1 (List.mem_of_mem_take hv)
    exact hy.nonneg j
  holds := by
    refine forall_mem_ordered_iff.1 ?_
    intro c hc
    obtain ⟨i, rfl⟩ := exists_rowConstraint hc
    have hwithout := Problem.within_program_iff.1 hy.within
    exact ((eval_row_eq_level_iff ht hwithout fun _ => hy.nonneg _).1 (hy.solves i)).1

/-! ## Feasible values come from points of the tableau -/

/-- Every slack or surplus variable at what its constraint leaves, artificial variables at zero. -/
def extend (p : Program F) (x : List F) (j : Fin p.layout.columns) : F :=
  if j.val < p.layout.decision then x.getD j 0
  else if p.layout.isArtificial j then 0
  else
    match p.ordered[j.val - p.layout.decision]? with
    | some c => |dot c.coefficients x - c.rhs|
    | none => 0

variable {x : List F}

omit [IsStrictOrderedRing F] in
/-- Extending a point leaves the artificial variables at zero. -/
theorem withoutArtificials_extend : p.layout.WithoutArtificials (p.extend x) := by
  intro j hj
  have hstart := (p.layout.isArtificial_iff).1 hj
  have hdec : ¬ j.val < p.layout.decision := by
    simp only [Layout.startOf] at hstart
    omega
  rw [extend, if_neg hdec, if_pos hj]

omit [IsStrictOrderedRing F] in
/-- Slack and surplus variables take up how far the sides of their constraints are apart. -/
theorem extend_gapColumn (i : Fin p.layout.rows) (h : i.val < p.layout.less + p.layout.greater) :
    p.extend x (p.layout.gapColumn i h) =
      |dot (p.rowConstraint i).coefficients x - (p.rowConstraint i).rhs| := by
  have hval : (p.layout.gapColumn i h).val = p.layout.decision + i.val := rfl
  have hdec : ¬ (p.layout.gapColumn i h).val < p.layout.decision := by omega
  have hart : ¬ p.layout.isArtificial (p.layout.gapColumn i h).val = true := by
    rw [Layout.isArtificial_iff]
    simp only [Layout.startOf]
    omega
  rw [extend, if_neg hdec, if_neg hart, hval, Nat.add_sub_cancel_left, p.getElem?_ordered]

/-- So nonnegative values are extended by nonnegative ones. -/
theorem extend_nonneg (hx : ∀ v ∈ x, 0 ≤ v) (j : Fin p.layout.columns) : 0 ≤ p.extend x j := by
  rw [extend]
  split
  · exact getD_nonneg hx _
  · split
    · exact le_refl 0
    · split
      · exact abs_nonneg _
      · exact le_refl 0

omit [IsStrictOrderedRing F] in
theorem decisions_extend (hx : x.length = p.cost.length) : p.layout.decisions (p.extend x) = x := by
  refine List.ext_getElem (by rw [length_decisions, hx]) ?_
  intro k hk hkx
  have hdec : k < p.layout.decision := by
    rw [hx] at hkx
    exact hkx
  simp only [Layout.decisions, List.getElem_take, List.getElem_ofFn]
  rw [extend, if_pos hdec]
  exact List.getD_eq_getElem _ _ hkx

/-- At feasible values every row of the first tableau holds. -/
theorem holds_extend (ht : p.tableau.result = .ok t) (hx : p.Feasible x) :
    t.Holds (p.extend x) := by
  intro i
  refine (eval_row_eq_level_iff ht withoutArtificials_extend fun _ => extend_nonneg hx.nonneg _).2 ?_
  rw [decisions_extend hx.length_eq]
  exact ⟨forall_mem_ordered_iff.2 hx.holds _ (p.rowConstraint_mem i), fun h => extend_gapColumn i h⟩

/-- Feasible values are the decision variables of a point of the problem. -/
theorem exists_point (ht : p.tableau.result = .ok t) (hx : p.Feasible x) :
    ∃ y, (p.posed t).Point y ∧ p.layout.decisions y = x :=
  ⟨p.extend x, ⟨Problem.within_program_iff.2 withoutArtificials_extend, holds_extend ht hx,
    extend_nonneg hx.nonneg⟩, decisions_extend hx.length_eq⟩

end Points

/-! ## The cost -/

theorem cell_decisionCost (direction : Direction) (j : Fin p.layout.columns) :
    (Tableau.decisionCost direction p.costVector).cell j = direction.orient (p.cost.getD j 0) := by
  rw [Tableau.decisionCost, Line.cell, get_eq_getElem, Vector.getElem_ofFn]
  split
  · rename_i hj
    have hlt : j.val < p.cost.length := hj
    rw [List.getD_eq_getElem _ _ hlt]
    rfl
  · rename_i hj
    have hle : p.cost.length ≤ j.val := not_lt.1 hj
    rw [List.getD_eq_default _ _ hle]
    cases direction with
    | minimize => rfl
    | maximize => exact neg_zero.symm

/-- The objective of a tableau is the oriented cost of the decision variables. -/
theorem eval_decisionCost (direction : Direction) (y : Fin p.layout.columns → F) :
    (Tableau.decisionCost direction p.costVector).eval y =
      direction.orient (p.costAt (p.layout.decisions y)) := by
  have hcost : p.costAt (p.layout.decisions y) = ∑ j, p.cost.getD j.val 0 * y j := by
    have hlen : p.cost.length ≤ p.layout.decision := le_refl p.cost.length
    rw [costAt, Layout.decisions, dot_take _ _ hlen, dot_ofFn]
  rw [Line.eval, hcost]
  cases direction with
  | minimize => exact Finset.sum_congr rfl fun j _ => by rw [cell_decisionCost]; rfl
  | maximize =>
    show _ = -∑ j, p.cost.getD j.val 0 * y j
    rw [← Finset.sum_neg_distrib]
    refine Finset.sum_congr rfl ?_
    intro j _
    rw [cell_decisionCost]
    exact neg_mul _ _

/-- The objective is the cost, negated if a maximum is sought. -/
theorem objective_posed (t : Tableau F p.layout p.layout.rows) (y : Fin p.layout.columns → F) :
    (p.posed t).objective y = p.direction.orient (p.costAt (p.layout.decisions y)) :=
  eval_decisionCost p.direction y

end Program

end Simplex
