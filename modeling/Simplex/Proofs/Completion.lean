/-
  Slack and surplus values complete a solution of the constraints to one of the rows, in one way.

  1. `Layout.assemble` — decision, slack and surplus values put where their columns are, artificial variables at zero,
     and what stands in the slack or surplus column of a row.
  2. `Program.gaps` — how far the two sides of the constraints behind the rows of one relation are apart, as they were
     stated; `Program.gap_rowConstraint_of_less` and `…_of_greater` say which of them is that of a row.
  3. `Completes` — the assembled values satisfy every row.  They do exactly if the constraints hold and the slack and
     surplus values are the gaps (`Program.completes_iff`).  The sign of the decision variables is not in the rows.
-/
import Simplex.Proofs.Soundness

namespace Simplex

/-! ## Values for all columns -/

namespace Layout

variable {F : Type} [Field F] (L : Layout) {x slack surplus : List F} {i : Nat}

/-- The values of all columns: those given for decision, slack and surplus columns, and zero for artificial ones. -/
def assemble (x slack surplus : List F) (j : Fin L.columns) : F :=
  match L.kind j with
  | .decision => x.getD (L.place j) 0
  | .slack => slack.getD (L.place j) 0
  | .surplus => surplus.getD (L.place j) 0
  | .artificial => 0

theorem kind_of_lt_decision {j : Nat} (h : j < L.decision) : L.kind j = .decision := by
  have hkind := L.kind_startOf_add (k := .decision) h
  rwa [startOf, Nat.zero_add] at hkind

variable {L}

/-- A row with at most finds its slack value in its slack column. -/
theorem assemble_gapColumn_of_less (h : i < L.less) :
    L.assemble x slack surplus (L.gapColumn i (by omega)) = slack.getD i 0 := by
  have hval : (L.gapColumn i (by omega)).val = L.startOf .slack + i := rfl
  rw [assemble, hval, L.kind_startOf_add h, L.place_startOf_add h]

/-- A row with at least finds its surplus value in its surplus column. -/
theorem assemble_gapColumn_of_greater (h : L.less ≤ i) (h' : i < L.less + L.greater) :
    L.assemble x slack surplus (L.gapColumn i h') = surplus.getD (i - L.less) 0 := by
  have hplace : i - L.less < L.countOf .surplus := Nat.sub_lt_left_of_lt_add h h'
  have hval : (L.gapColumn i h').val = L.startOf .surplus + (i - L.less) := by
    simp only [gapColumn, startOf]
    omega
  rw [assemble, hval, L.kind_startOf_add hplace, L.place_startOf_add hplace]

theorem withoutArtificials_assemble : L.WithoutArtificials (L.assemble x slack surplus) := by
  intro j hj
  have hkind : L.kind j = .artificial := beq_iff_eq.1 hj
  rw [assemble, hkind]

/-- The decision variables have the given values. -/
theorem decisions_assemble (hx : x.length = L.decision) :
    L.decisions (L.assemble x slack surplus) = x := by
  have hlen : (L.decisions (L.assemble x slack surplus)).length = x.length := by
    rw [decisions, List.length_take, List.length_ofFn, hx]
    exact min_eq_left L.decision_le_columns
  refine List.ext_getElem hlen ?_
  intro k _ hk
  have hkind := L.kind_of_lt_decision (hx ▸ hk)
  simp only [decisions, List.getElem_take, List.getElem_ofFn, assemble, hkind]
  rw [place, hkind]
  exact List.getD_eq_getElem _ _ hk

end Layout

variable {F : Type} [Field F] [LinearOrder F]

/-! ## Constraints by the relation of their row -/

namespace Program

variable {p : Program F} {x : List F}

/-- How far the sides of these constraints are apart. -/
def gaps (p : Program F) (r : Relation) (x : List F) : List F := (p.statedWith r).map (·.gap x)

/-- There is a gap for each row of the relation. -/
theorem length_gaps (p : Program F) (r : Relation) (x : List F) :
    (p.gaps r x).length = (p.orientedWith r).length := by
  rw [gaps, orientedWith_eq_map, List.length_map, List.length_map]

/-- Turning a constraint around does not change how far its sides are apart. -/
theorem gaps_eq_map (p : Program F) (r : Relation) (x : List F) :
    p.gaps r x = (p.orientedWith r).map (·.gap x) := by
  rw [orientedWith_eq_map, List.map_map, gaps]
  refine List.map_congr_left ?_
  intro c _
  exact (c.gap_oriented _ x).symm

/-- The gap of a row with at most, among those of its relation. -/
theorem gap_rowConstraint_of_less {i : Fin p.layout.rows} (h : i.val < p.layout.less) (x : List F) :
    (p.rowConstraint i).gap x = (p.gaps .le x).getD i 0 := by
  rw [gaps_eq_map, List.getD_eq_getElem?_getD, List.getElem?_map, getElem?_orientedWith_of_less h]
  rfl

/-- The gap of a row with at least, among those of its relation. -/
theorem gap_rowConstraint_of_greater {i : Fin p.layout.rows} (h : p.layout.less ≤ i.val)
    (h' : i.val < p.layout.less + p.layout.greater) (x : List F) :
    (p.rowConstraint i).gap x = (p.gaps .ge x).getD (i.val - p.layout.less) 0 := by
  rw [gaps_eq_map, List.getD_eq_getElem?_getD, List.getElem?_map, getElem?_orientedWith_of_greater h h']
  rfl

theorem gaps_nonneg [IsStrictOrderedRing F] (p : Program F) (r : Relation) (x : List F) :
    ∀ v ∈ p.gaps r x, 0 ≤ v := by
  intro v hv
  obtain ⟨c, -, rfl⟩ := List.mem_map.1 hv
  exact abs_nonneg _

end Program

/-! ## Completion -/

/-- One nonnegative slack or surplus value for every row that has one, with which the given values satisfy every row
    of the tableau. -/
structure Tableau.Completes {L : Layout} {m : Nat} (t : Tableau F L m) (x slack surplus : List F) : Prop where
  length_slack : slack.length = L.less
  length_surplus : surplus.length = L.greater
  slack_nonneg : ∀ v ∈ slack, 0 ≤ v
  surplus_nonneg : ∀ v ∈ surplus, 0 ≤ v
  holds : t.Holds (L.assemble x slack surplus)

omit [LinearOrder F] in
/-- Lists of one length are the same if they are so at every place. -/
theorem eq_of_forall_getD {l l' : List F} (hlen : l.length = l'.length)
    (h : ∀ k < l.length, l.getD k 0 = l'.getD k 0) : l = l' := by
  refine List.ext_getElem hlen ?_
  intro k hk hk'
  have hget := h k hk
  rw [List.getD_eq_getElem _ _ hk, List.getD_eq_getElem _ _ hk'] at hget
  exact hget

namespace Program

variable [IsStrictOrderedRing F] {p : Program F} {t : Tableau F p.layout p.layout.rows} {x slack surplus : List F}

/-- Assembled values satisfy a row exactly if its constraint holds and its slack or surplus is the gap. -/
theorem eval_assemble_eq_level_iff (ht : p.tableau.result = .ok t) (hx : x.length = p.variableCount)
    (hslack : ∀ v ∈ slack, 0 ≤ v) (hsurplus : ∀ v ∈ surplus, 0 ≤ v) (i : Fin p.layout.rows) :
    (t.row i).line.eval (p.layout.assemble x slack surplus) = t.level i ↔
      (p.rowConstraint i).Holds x ∧ (i.val < p.layout.less → slack.getD i 0 = (p.gaps .le x).getD i 0) ∧
      (p.layout.less ≤ i.val → i.val < p.layout.less + p.layout.greater →
        surplus.getD (i.val - p.layout.less) 0 = (p.gaps .ge x).getD (i.val - p.layout.less) 0) := by
  have h0 : ∀ h, 0 ≤ p.layout.assemble x slack surplus (p.layout.gapColumn i h) := by
    intro h
    rcases Nat.lt_or_ge i.val p.layout.less with hless | hless
    · rw [Layout.assemble_gapColumn_of_less hless]
      exact getD_nonneg hslack _
    · rw [Layout.assemble_gapColumn_of_greater hless h]
      exact getD_nonneg hsurplus _
  rw [eval_row_eq_level_iff ht Layout.withoutArtificials_assemble h0, Layout.decisions_assemble hx]
  refine and_congr_right fun _ => ?_
  constructor
  · intro hgap
    refine ⟨fun hless => ?_, fun hless hgreater => ?_⟩
    · rw [← gap_rowConstraint_of_less hless, ← hgap (by omega), Layout.assemble_gapColumn_of_less hless]
    · rw [← gap_rowConstraint_of_greater hless hgreater, ← hgap hgreater,
        Layout.assemble_gapColumn_of_greater hless hgreater]
  · rintro ⟨hle, hge⟩ h
    rcases Nat.lt_or_ge i.val p.layout.less with hless | hless
    · rw [Layout.assemble_gapColumn_of_less hless, hle hless, gap_rowConstraint_of_less hless]
    · rw [Layout.assemble_gapColumn_of_greater hless h, hge hless h, gap_rowConstraint_of_greater hless h]

/-- Values complete others exactly if the constraints hold and they are the gaps. -/
theorem completes_iff (ht : p.tableau.result = .ok t) (hx : x.length = p.variableCount) :
    t.Completes x slack surplus ↔
      (∀ c ∈ p.constraints, c.Holds x) ∧ slack = p.gaps .le x ∧ surplus = p.gaps .ge x := by
  constructor
  · intro h
    have hrow := fun i => (eval_assemble_eq_level_iff ht hx h.slack_nonneg h.surplus_nonneg i).1 (h.holds i)
    have hrows : p.layout.less + p.layout.greater ≤ p.layout.rows := Nat.le_add_right ..
    have hless := h.length_slack
    have hgreater := h.length_surplus
    refine ⟨forall_mem_ordered_iff.1 ?_, eq_of_forall_getD ?_ ?_, eq_of_forall_getD ?_ ?_⟩
    · intro c hc
      obtain ⟨i, rfl⟩ := exists_rowConstraint hc
      exact (hrow i).1
    · exact hless.trans (p.length_gaps .le x).symm
    · intro k hk
      exact (hrow ⟨k, by omega⟩).2.1 (hless ▸ hk)
    · exact hgreater.trans (p.length_gaps .ge x).symm
    · -- the surplus values belong to the rows after the first `less`
      intro k hk
      have hk' : p.layout.less + k < p.layout.less + p.layout.greater := by omega
      have hgap := (hrow ⟨p.layout.less + k, by omega⟩).2.2 (Nat.le_add_right ..) hk'
      rw [Nat.add_sub_cancel_left] at hgap
      exact hgap
  · rintro ⟨hc, rfl, rfl⟩
    refine ⟨p.length_gaps .le x, p.length_gaps .ge x, p.gaps_nonneg .le x, p.gaps_nonneg .ge x, ?_⟩
    intro i
    refine (eval_assemble_eq_level_iff ht hx (p.gaps_nonneg .le x) (p.gaps_nonneg .ge x) i).2 ?_
    exact ⟨forall_mem_ordered_iff.2 hc _ (p.rowConstraint_mem i), fun _ => rfl, fun _ _ => rfl⟩

/-- **The first tableau says what the program says.**  Nonnegative values of the variables satisfy every constraint of
    an accepted program exactly if there are nonnegative slack and surplus values that complete them to a solution of
    the rows without artificial variables.  The rows do not look at the sign of the variables: without asking for it,
    the constraints are the same as the rows, too.  And slack and surplus values can only be the gaps of their
    constraints. -/
theorem feasible_iff_completes (ht : p.tableau.result = .ok t) (hx : x.length = p.variableCount) :
    (p.Feasible x ↔ (∀ v ∈ x, 0 ≤ v) ∧ ∃ slack surplus, t.Completes x slack surplus) ∧
    ((∀ c ∈ p.constraints, c.Holds x) ↔ ∃ slack surplus, t.Completes x slack surplus) ∧
    ∀ slack surplus, t.Completes x slack surplus → slack = p.gaps .le x ∧ surplus = p.gaps .ge x := by
  have hiff : (∀ c ∈ p.constraints, c.Holds x) ↔ ∃ slack surplus, t.Completes x slack surplus := by
    constructor
    · intro hc
      exact ⟨_, _, (completes_iff ht hx).2 ⟨hc, rfl, rfl⟩⟩
    · rintro ⟨slack, surplus, h⟩
      exact ((completes_iff ht hx).1 h).1
  refine ⟨?_, hiff, fun slack surplus h => ((completes_iff ht hx).1 h).2⟩
  constructor
  · intro h
    exact ⟨h.nonneg, hiff.1 h.holds⟩
  · rintro ⟨hnonneg, h⟩
    exact ⟨hx, hnonneg, hiff.2 h⟩

/-- In `mixed`, the values three and two leave one to the constraint that is turned around and three to the other
    inequality. -/
theorem feasible_iff_completes_mixed : ∃ t, mixed.tableau.result = .ok t ∧ mixed.Feasible [3, 2] ∧
    (∃ slack surplus, t.Completes [3, 2] slack surplus) ∧
    ∀ slack surplus, t.Completes [3, 2] slack surplus → slack = [1] ∧ surplus = [3] := by
  obtain ⟨t, ht⟩ := exists_tableau_of_isOk (p := mixed) (by decide +kernel)
  have hfeasible : mixed.Feasible [3, 2] := by decide +kernel
  obtain ⟨hiff, -, hgaps⟩ := feasible_iff_completes (x := [3, 2]) ht rfl
  have hslack : mixed.gaps .le [3, 2] = [1] := by decide +kernel
  have hsurplus : mixed.gaps .ge [3, 2] = [3] := by decide +kernel
  rw [hslack, hsurplus] at hgaps
  exact ⟨t, ht, hfeasible, (hiff.1 hfeasible).2, hgaps⟩

/-- One variable that is at most one. -/
def capped : Program ℚ where
  direction := .minimize
  cost := [1]
  constraints := [⟨[1], .le, 1⟩]

/-- Only the rows do not make a program: nothing in them keeps a decision variable from being negative.  In `capped`,
    minus one is completed by a slack of two, and it is not feasible. -/
theorem completes_not_feasible_capped : ∃ t, capped.tableau.result = .ok t ∧ t.Completes [-1] [2] [] ∧
    ¬ (capped.Feasible [-1] ↔ ∃ slack surplus, t.Completes [-1] slack surplus) := by
  obtain ⟨t, ht⟩ := exists_tableau_of_isOk (p := capped) (by decide +kernel)
  have hcompletes : t.Completes [-1] [2] [] := by
    refine (completes_iff (x := [-1]) ht rfl).2 ⟨?_, ?_, ?_⟩ <;> decide +kernel
  have hinfeasible : ¬ capped.Feasible [-1] := by decide +kernel
  exact ⟨t, ht, hcompletes, fun h => hinfeasible (h.2 ⟨_, _, hcompletes⟩)⟩

end Program

end Simplex
