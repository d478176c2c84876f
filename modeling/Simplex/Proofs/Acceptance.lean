/-
  Which programs are accepted.

  A program is looked at twice: as it is stated, and again when its rows are made a tableau.  Of a program that passes
  the first look, the second one finds what was put there a moment before: as many rows as there are, all of one width,
  right-hand sides that were turned until none was negative, and the unit columns of the first basis.  So there is only
  one reason to refuse a program, for numbers of any kind.

  1. `Program.countFault?_eq_none` … `Program.basisFault?_eq_none` — the second look finds nothing wrong.
  2. `Tableau.States` — a row is a constraint, turned if need be, with its first basic column and its surplus column;
     `Program.exists_row_of_statedWith` — which row a constraint has.
  3. `Program.WellFormed.result_solve_ne` — after that, only the costs could still be refused, and they are those of the
     program.
  4. `Program.accepted_iff_wellFormed` — exactly the well-formed programs are accepted.
-/
import Simplex.Proofs.ArtificialCost
import Simplex.Proofs.LawfulScalar

namespace Simplex

variable {F : Type} [Scalar F]

namespace Constraint

variable [LawfulScalar F] {c : Constraint F}

theorem isFinite_turned {x : F} (hx : Scalar.isFinite x = true) : Scalar.isFinite (c.turned x) = true := by
  rw [turned]
  split
  · exact LawfulScalar.isFinite_neg x hx
  · exact hx

/-- No right-hand side is negative after the constraint is turned. -/
theorem not_turned_rhs_lt_zero : ¬ c.turned c.rhs < 0 := by
  rw [turned]
  split
  · rename_i hneg
    exact LawfulScalar.not_neg_lt_zero _ hneg
  · assumption

end Constraint

namespace Program

variable {p : Program F}

/-! ## The checks on rows -/

theorem countFault?_eq_none (p : Program F) : Tableau.countFault? p.layout p.rows p.levels = none := by
  rw [Tableau.countFault?_eq_none_iff, rows, levels, List.length_map, List.length_map, List.length_zipIdx,
    length_ordered]
  exact ⟨rfl, rfl⟩

theorem widthFault?_eq_none (p : Program F) : Tableau.widthFault? p.layout p.rows = none := by
  rw [Tableau.widthFault?_eq_none_iff]
  intro row hrow
  obtain ⟨⟨c, i⟩, -, rfl⟩ := List.mem_map.1 hrow
  exact p.layout.length_row i c.coefficients

variable [LawfulScalar F]

theorem WellFormed.levelFault?_eq_none (h : p.WellFormed) : Tableau.levelFault? p.levels = none := by
  rw [Tableau.levelFault?_eq_none_iff]
  intro b hb
  obtain ⟨c', hc', rfl⟩ := List.mem_map.1 hb
  obtain ⟨c, hc, rfl⟩ := List.mem_map.1 (mem_ordered_iff.1 hc')
  rw [c.oriented_eq]
  exact ⟨Constraint.isFinite_turned (h.rhs_finite c hc), Constraint.not_turned_rhs_lt_zero⟩

/-- In the first basic column of a row, that row has a one and all others have zeros. -/
theorem WellFormed.basisFault?_eq_none (h : p.WellFormed) : Tableau.basisFault? p.layout p.rows = none := by
  rw [Tableau.basisFault?_eq_none_iff]
  intro i hi
  refine Tableau.isUnitColumn_iff.2 fun k row hrow => ?_
  have hk : k < p.layout.rows := by
    have hlt := (List.getElem?_eq_some_iff.1 hrow).1
    rwa [(Tableau.countFault?_eq_none_iff.1 p.countFault?_eq_none).1] at hlt
  cases Option.some.inj (hrow.symm.trans (p.getElem?_rows ⟨k, hk⟩))
  rw [p.layout.getD_row _ _ (p.layout.initialColumn_lt hi)]
  by_cases hki : k = i
  · rw [if_pos (congrArg p.layout.initialColumn hki.symm), if_pos hki]
    exact LawfulScalar.one_beq_one
  · have hcolumn : p.layout.initialColumn i ≠ p.layout.initialColumn k := fun e =>
      hki (p.layout.initialColumn_injective e.symm)
    have hsurplus : p.layout.surplusColumn? k ≠ some (p.layout.initialColumn i) := fun e =>
      (p.layout.of_surplusColumn?_eq_some e).2 i rfl
    -- the column is to the right of all coefficients
    have hzero : (p.rowConstraint ⟨k, hk⟩).coefficients.getD (p.layout.initialColumn i) 0 = 0 :=
      List.getD_eq_default _ _ (Nat.le_trans (length_rowConstraint_le (fault?_eq_none_iff.2 h) ⟨k, hk⟩)
        (p.layout.decision_le_initialColumn i))
    rw [if_neg hcolumn, if_neg hsurplus, if_neg hki, hzero]
    exact LawfulScalar.zero_beq_zero

/-- A well-formed program has a first tableau. -/
theorem WellFormed.result_tableau (h : p.WellFormed) :
    p.tableau.result = .ok (.fill p.layout p.rows p.levels) := by
  have hfault : Tableau.fault? p.layout p.rows p.levels = none := by
    rw [Tableau.fault?, p.countFault?_eq_none, p.widthFault?_eq_none, h.levelFault?_eq_none, h.basisFault?_eq_none]
    rfl
  rw [tableau, fault?_eq_none_iff.2 h]
  exact Tableau.ofRows_eq_ok_iff.2 ⟨hfault, rfl⟩

end Program

/-! ## The row of a constraint -/

/-- Row `i` states the constraint: its numbers are turned until the right-hand side is not negative, there is a one in
    the basic column, minus one in the surplus column if the row has one, and zeros elsewhere. -/
structure Tableau.States {L : Layout} (t : Tableau F L L.rows) (i : Fin L.rows) (c : Constraint F) : Prop where
  level : t.level i = c.turned c.rhs
  decision : ∀ j : Fin L.columns, j.val < L.decision → t.entry i j = c.turned (c.coefficients.getD j 0)
  basic : t.basic i = L.basisColumn i
  basis : t.entry i (L.basisColumn i) = 1
  surplus : ∀ j : Fin L.columns, L.surplusColumn? i = some j.val → t.entry i j = -1
  elsewhere : ∀ j : Fin L.columns, L.decision ≤ j.val → j ≠ L.basisColumn i → L.surplusColumn? i ≠ some j.val →
    t.entry i j = 0

namespace Program

variable {p : Program F} {t : Tableau F p.layout p.layout.rows}

/-- The constraints of one relation have the rows of that relation, in their order. -/
theorem getElem?_ordered_of_orientedWith {r : Relation} {k : Nat} {c : Constraint F}
    (h : (p.orientedWith r)[k]? = some c) : (p.layout.rowsOf r).first + k < (p.layout.rowsOf r).limit ∧
      p.ordered[(p.layout.rowsOf r).first + k]? = some c := by
  have hk : k < (p.orientedWith r).length := (List.getElem?_eq_some_iff.1 h).1
  cases r with
  | le =>
    refine ⟨(Nat.zero_add k).symm ▸ hk, ?_⟩
    show p.ordered[0 + k]? = _
    rw [ordered, List.append_assoc, Nat.zero_add, List.getElem?_append_left hk, h]
  | ge =>
    refine ⟨Nat.add_lt_add_left hk _, ?_⟩
    show p.ordered[(p.orientedWith .le).length + k]? = _
    rw [ordered, List.append_assoc, List.getElem?_append_right (Nat.le_add_right ..), Nat.add_sub_cancel_left,
      List.getElem?_append_left hk, h]
  | eq =>
    refine ⟨Nat.add_lt_add_left hk _, ?_⟩
    show p.ordered[(p.orientedWith .le).length + (p.orientedWith .ge).length + k]? = _
    rw [ordered, ← List.length_append, List.getElem?_append_right (Nat.le_add_right ..), Nat.add_sub_cancel_left, h]

/-- The `k`-th constraint of a relation has the `k`-th row of that relation. -/
theorem exists_row_of_statedWith {r : Relation} {k : Nat} {c : Constraint F} (h : (p.statedWith r)[k]? = some c) :
    ∃ i : Fin p.layout.rows, i.val = (p.layout.rowsOf r).first + k ∧ i.val ∈ p.layout.rowsOf r ∧
      p.rowConstraint i = c.oriented p.variableCount := by
  have horiented : (p.orientedWith r)[k]? = some (c.oriented p.variableCount) := by
    rw [orientedWith_eq_map, List.getElem?_map, h]
    rfl
  obtain ⟨hlimit, hget⟩ := getElem?_ordered_of_orientedWith horiented
  have hlt : (p.layout.rowsOf r).first + k < p.layout.rows := p.length_ordered ▸ (List.getElem?_eq_some_iff.1 hget).1
  refine ⟨⟨_, hlt⟩, rfl, ⟨Nat.le_add_right .., hlimit⟩, ?_⟩
  exact Option.some.inj ((p.getElem?_ordered ⟨_, hlt⟩).symm.trans hget)

/-- A row of an accepted program states the constraint it was made of. -/
theorem states_of_rowConstraint (ht : p.tableau.result = .ok t) {i : Fin p.layout.rows} {c : Constraint F}
    (hc : c.coefficients.length ≤ p.variableCount) (hrow : p.rowConstraint i = c.oriented p.variableCount) :
    t.States i c where
  level := by rw [level_eq_rhs ht, hrow, c.oriented_eq]
  decision j hj := by
    have hbasis : j.val ≠ p.layout.initialColumn i := fun e =>
      absurd (p.layout.decision_le_initialColumn i) (Nat.not_le.2 (e ▸ hj))
    have hsurplus : p.layout.surplusColumn? i ≠ some j.val := fun e =>
      absurd (p.layout.of_surplusColumn?_eq_some e).1 (Nat.not_le.2 hj)
    rw [entry_eq ht, if_neg hbasis, if_neg hsurplus, hrow, c.oriented_eq, List.getD_eq_getElem?_getD,
      List.getElem?_map, Constraint.getElem?_padded hc hj]
    rfl
  basic := by rw [eq_fill ht, Tableau.basic_fill]
  basis := by
    rw [entry_eq ht]
    exact if_pos rfl
  surplus j hj := by rw [entry_eq ht, if_neg ((p.layout.of_surplusColumn?_eq_some hj).2 i), if_pos hj]
  elsewhere j hj hbasis hsurplus := by
    have hzero : (p.rowConstraint i).coefficients.getD j 0 = 0 :=
      List.getD_eq_default _ _ (Nat.le_trans (length_rowConstraint_le (fault?_eq_none ht) i) hj)
    have hcolumn : j.val ≠ p.layout.initialColumn i := fun e => hbasis (Fin.ext e)
    rw [entry_eq ht, if_neg hcolumn, if_neg hsurplus, hzero]

end Program

/-! ## Refused programs -/

namespace Program

variable {E : Type} [Tolerance F E] {p : Program F}

theorem WellFormed.checkCost_eq_ok (h : p.WellFormed) :
    Tableau.checkCost p.layout p.cost = .ok ⟨p.cost.toArray, rfl⟩ := by
  rw [Tableau.checkCost, costFault?_eq_none_iff.2 h.cost_finite]
  exact dif_pos rfl

/-- Once the rows are accepted, a run does not end because of what was stated. -/
theorem WellFormed.result_solve_ne [LawfulScalar F] (h : p.WellFormed) (options : Options E)
    (cause : Inconsistency F) : (p.solve options).result ≠ .error (.inconsistent cause) := by
  intro he
  rw [solve, Journal.result_bind_of_ok (Journal.result_mapError_eq_ok_iff.2 h.result_tableau),
    Tableau.result_solve_eq] at he
  rcases error_of_bind he with hprepare | ⟨cost, -, hrun⟩
  · rcases Tableau.error_of_prepare hprepare with hcause | ⟨_, hcost, -⟩
    · cases hcause
    · rw [h.checkCost_eq_ok] at hcost
      cases hcost
  · rcases Tableau.error_of_runPhases hrun with ⟨phase, k, hlimit⟩ | ⟨hunbounded, -⟩
    · cases hlimit
    · cases hunbounded

/-- **Exactly the well-formed programs are accepted.**  There is a first tableau exactly if the program has a variable,
    no constraint has a coefficient for another one, and all numbers are finite; then none of the checks on its rows
    finds anything.  The layout counts the variables and the constraints of each relation after those with a negative
    right-hand side are turned around, and of the constraints of one relation the `k`-th in the stated order is the
    `k`-th row of that relation.  A run is refused as inconsistent exactly for all other programs, whatever the
    options. -/
theorem accepted_iff_wellFormed [LawfulScalar F] (p : Program F) :
    ((∃ t, p.tableau.result = .ok t) ↔ p.WellFormed) ∧
    (p.WellFormed → Tableau.countFault? p.layout p.rows p.levels = none ∧
      Tableau.widthFault? p.layout p.rows = none ∧ Tableau.levelFault? p.levels = none ∧
      Tableau.basisFault? p.layout p.rows = none) ∧
    p.layout = ⟨p.cost.length, (p.statedWith .le).length, (p.statedWith .ge).length, (p.statedWith .eq).length⟩ ∧
    (∀ t, p.tableau.result = .ok t → ∀ r k c, (p.statedWith r)[k]? = some c →
      ∃ i : Fin p.layout.rows, i.val = (p.layout.rowsOf r).first + k ∧ i.val ∈ p.layout.rowsOf r ∧ t.States i c) ∧
    ∀ options : Options E, (∃ cause, (p.solve options).result = .error (.inconsistent cause)) ↔ ¬ p.WellFormed := by
  have hlength : ∀ r, (p.orientedWith r).length = (p.statedWith r).length := by
    intro r
    rw [orientedWith_eq_map, List.length_map]
  have haccepted : (∃ t, p.tableau.result = .ok t) ↔ p.WellFormed := by
    constructor
    · rintro ⟨t, ht⟩
      exact fault?_eq_none_iff.1 (fault?_eq_none ht)
    · intro h
      exact ⟨_, h.result_tableau⟩
  refine ⟨haccepted, fun h => ?_, ?_, fun t ht r k c hc => ?_, fun options => ⟨?_, fun h => ?_⟩⟩
  · exact ⟨p.countFault?_eq_none, p.widthFault?_eq_none, h.levelFault?_eq_none, h.basisFault?_eq_none⟩
  · rw [← hlength, ← hlength, ← hlength]
    rfl
  · obtain ⟨i, hi, hmem, hrow⟩ := exists_row_of_statedWith hc
    have hstated : c ∈ p.constraints := (List.mem_filter.1 (List.mem_of_getElem? hc)).1
    have hlen := (haccepted.1 ⟨t, ht⟩).length_le c hstated
    exact ⟨i, hi, hmem, states_of_rowConstraint ht hlen hrow⟩
  · rintro ⟨cause, hcause⟩ h
    exact h.result_solve_ne options cause hcause
  · cases ht : p.tableau.result with
    | ok t => exact absurd (haccepted.1 ⟨t, ht⟩) h
    | error cause =>
      refine ⟨cause, ?_⟩
      rw [solve, Journal.result_bind]
      simp only [Journal.mapError, ht]
      rfl

/-- A constraint with a coefficient for a second variable, where there is only one. -/
def crowded : Program Float where
  direction := .minimize
  cost := [1]
  constraints := [⟨[1, 1], .ge, 2⟩]

/-- The third constraint of `sample` is turned around and states the first row; `crowded` is refused. -/
theorem accepted_iff_wellFormed_sample : sample.WellFormed ∧
    (∃ t, sample.tableau.result = .ok t ∧ ∃ i : Fin sample.layout.rows, i.val = 0 ∧ t.States i ⟨[-1, -1], .ge, -6⟩) ∧
    ¬ crowded.WellFormed ∧ ∃ cause, (crowded.solve Options.standard).result = .error (.inconsistent cause) := by
  have hwell : sample.WellFormed := by decide +kernel
  have hcrowded : ¬ crowded.WellFormed := by decide +kernel
  obtain ⟨haccepted, -, -, hrows, -⟩ := accepted_iff_wellFormed (E := Float) sample
  obtain ⟨t, ht⟩ := haccepted.2 hwell
  obtain ⟨i, hi, -, hstates⟩ := hrows t ht .le 0 ⟨[-1, -1], .ge, -6⟩ rfl
  obtain ⟨-, -, -, -, hrefused⟩ := accepted_iff_wellFormed (E := Float) crowded
  exact ⟨hwell, ⟨t, ht, i, hi, hstates⟩, hcrowded, (hrefused Options.standard).2 hcrowded⟩

end Program

end Simplex
