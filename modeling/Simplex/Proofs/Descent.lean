/-
  What a descent keeps, and how it ends.

  1. The choices: the row that leaves has the least ratio, and in the careful mode the column that enters is the
     first profitable one, and no row with the same ratio has a lower basic column.
  2. One pivot (`Presents.pivot_of_chooses`, `Feasible.pivot_of_chooses`): under a tolerance that resolves the
     problem, the chosen pivot presents the same problem and leaves no right-hand side negative.  The ratio test
     then sees every positive entry, so the step it allows is short enough for every row.
  3. The whole run (`descend_induct`): whatever every chosen pivot keeps holds at the end, where no column is
     profitable, or one is that no row limits.  The buffer has the basic solution then (`values_of_descend`).
  4. What the end means (`Presents.descend`): the value is the least one, or the objective falls below every
     bound.
-/
import Mathlib.Algebra.Order.BigOperators.Group.Finset
import Simplex.Proofs.Resolution

namespace Simplex

/-! ## Choices -/

section

variable {F : Type} [Scalar F] {L : Layout} {m : Nat}

/-- Column `j` enters and row `i` leaves. -/
structure Tableau.Chooses (t : Tableau F L m) (eps : F) (mode : Mode) (j : Fin L.columns)
    (i : Fin m) : Prop where
  entering : t.enteringColumn? eps mode = some j
  leaving : t.leavingRow? eps mode.tieBreak j = some i

namespace Tableau.Chooses

variable {t : Tableau F L m} {eps : F} {mode : Mode} {j : Fin L.columns} {i : Fin m}

/-- The column that enters is one of those that may. -/
theorem mem_candidates (h : t.Chooses eps mode j i) : j ∈ t.candidates :=
  (mem_profitable.1 (mem_profitable_of_enteringColumn? h.entering)).1

theorem isEligible (h : t.Chooses eps mode j i) : t.isEligible j = true :=
  (Tableau.mem_candidates.1 h.mem_candidates).1

/-- It is not in the basis already. -/
theorem not_basic (h : t.Chooses eps mode j i) : t.isBasic j = false :=
  (Tableau.mem_candidates.1 h.mem_candidates).2

/-- It is profitable by more than the tolerance. -/
theorem cost_lt (h : t.Chooses eps mode j i) : t.cost j < -eps :=
  (mem_profitable.1 (mem_profitable_of_enteringColumn? h.entering)).2

/-- The pivot is made on an entry above the tolerance. -/
theorem lt_entry (h : t.Chooses eps mode j i) : eps < t.entry i j :=
  lt_entry_of_leavingRow? h.leaving

end Tableau.Chooses

/-- Profitable columns are gone through from left to right. -/
theorem Tableau.pairwise_profitable (t : Tableau F L m) (eps : F) : (t.profitable eps).Pairwise (· < ·) :=
  (List.pairwise_lt_finRange L.columns).sublist (List.filter_sublist.trans List.filter_sublist)

/-- In the careful mode the entering column is the first profitable one. -/
theorem Tableau.le_of_enteringColumn?_careful {t : Tableau F L m} {eps : F} {j k : Fin L.columns}
    (h : t.enteringColumn? eps .careful = some j) (hk : k ∈ t.profitable eps) : j ≤ k := by
  have hsorted := t.pairwise_profitable eps
  cases hp : t.profitable eps with
  | nil => rw [hp] at hk; cases hk
  | cons first rest =>
    rw [enteringColumn?, hp] at h
    have hj : first = j := Option.some.inj h
    rw [hp] at hk hsorted
    rcases List.mem_cons.1 hk with hk | hk
    · rw [hk, hj]
    · rw [← hj]
      exact Nat.le_of_lt ((List.pairwise_cons.1 hsorted).1 k hk)

end

variable {F : Type} [Field F] [LinearOrder F] {L : Layout} {m : Nat}

namespace Tableau

/-! ## The leaving row -/

section Ratio

variable {t : Tableau F L m} {eps : F} {tie : TieBreak} {j : Fin L.columns}

/-- A row leaves before another by its ratio, and by its basic column if rows with equal ratios are told apart by it.
    -/
theorem leavesBefore_iff {i k : Fin m} : t.leavesBefore tie j i k = true ↔
    t.ratio j i < t.ratio j k ∨
      (t.ratio j i = t.ratio j k ∧ tie = .lowestBasisColumn ∧ t.basic i < t.basic k) := by
  simp [leavesBefore, and_assoc]

/-- No row leaves before itself. -/
theorem leavesBefore_irrefl (i : Fin m) : t.leavesBefore tie j i i = false := by
  refine Bool.of_not_eq_true ?_
  intro h
  rcases leavesBefore_iff.1 h with hlt | ⟨-, -, hlt⟩
  · exact lt_irrefl _ hlt
  · exact lt_irrefl _ hlt

/-- The order in which rows leave is transitive, with ties broken either way. -/
theorem leavesBefore_trans (a b c : Fin m) (hab : t.leavesBefore tie j a b = true)
    (hbc : t.leavesBefore tie j b c = true) : t.leavesBefore tie j a c = true := by
  rw [leavesBefore_iff] at hab hbc ⊢
  rcases hab with hab | ⟨hab, htie, hcol⟩
  · rcases hbc with hbc | ⟨hbc, -, -⟩
    · exact Or.inl (hab.trans hbc)
    · exact Or.inl (hbc ▸ hab)
  · rcases hbc with hbc | ⟨hbc, -, hcol'⟩
    · exact Or.inl (hab ▸ hbc)
    · exact Or.inr ⟨hab.trans hbc, htie, hcol.trans hcol'⟩

/-- No row with an entry above the tolerance should leave rather than the one that does. -/
theorem not_leavesBefore_of_leavingRow? {i k : Fin m} (h : t.leavingRow? eps tie j = some i)
    (hk : eps < t.entry k j) : t.leavesBefore tie j k i = false :=
  not_better_of_pick leavesBefore_irrefl leavesBefore_trans h (mem_blocking.2 hk)

/-- The leaving row has the least ratio. -/
theorem ratio_le_of_leavingRow? {i k : Fin m} (h : t.leavingRow? eps tie j = some i)
    (hk : eps < t.entry k j) : t.ratio j i ≤ t.ratio j k := by
  by_contra hlt
  have hbefore : t.leavesBefore tie j k i = true := leavesBefore_iff.2 (Or.inl (not_le.1 hlt))
  rw [not_leavesBefore_of_leavingRow? h hk] at hbefore
  cases hbefore

end Ratio

/-! ## One pivot -/

section Step

variable [IsStrictOrderedRing F] {P : Problem F L} {t : Tableau F L m} {eps : F} {mode : Mode}
  {j : Fin L.columns} {i : Fin m}

omit [IsStrictOrderedRing F] in
theorem Chooses.entry_pos (h : t.Chooses eps mode j i) (h0 : 0 < eps) : 0 < t.entry i j :=
  lt_trans h0 h.lt_entry

theorem Chooses.cost_neg (h : t.Chooses eps mode j i) (h0 : 0 < eps) : t.cost j < 0 :=
  lt_trans h.cost_lt (neg_lt_zero.2 h0)

omit [IsStrictOrderedRing F] in
/-- A column that enters is one that the problem allows. -/
theorem Presents.allowed_of_chooses (hp : t.Presents P) (h : t.Chooses eps mode j i) :
    P.allowed j = true := by
  rw [← hp.eligible]
  exact h.isEligible

/-- The step that the ratio test allows is short enough for every row that took part in it. -/
theorem levelAfter_nonneg_of_leavingRow? {tie : TieBreak} (h : t.leavingRow? eps tie j = some i) (h0 : 0 < eps)
    {r : Fin m} (hblock : eps < t.entry r j) : 0 ≤ t.levelAfter j i r := by
  have hpos : 0 < t.entry r j := lt_trans h0 hblock
  have hle := ratio_le_of_leavingRow? h hblock
  have hmul : t.entry r j * t.ratio j i ≤ t.level r := by
    rw [ratio, ratio, le_div_iff₀ hpos] at hle
    rw [ratio, mul_comm]
    exact hle
  exact sub_nonneg.2 hmul

/-- Where a pivot is chosen, the rows the ratio test looks at stay nonnegative. -/
theorem Chooses.levelAfter_nonneg (h : t.Chooses eps mode j i) (h0 : 0 < eps) {r : Fin m}
    (hblock : eps < t.entry r j) : 0 ≤ t.levelAfter j i r :=
  levelAfter_nonneg_of_leavingRow? h.leaving h0 hblock

theorem Feasible.ratio_nonneg_of_lt (hf : t.Feasible) (h0 : 0 < eps) (h : eps < t.entry i j) :
    0 ≤ t.ratio j i :=
  div_nonneg (hf i) (lt_trans h0 h).le

/-- A chosen step goes forward, or nowhere. -/
theorem Feasible.ratio_nonneg (hf : t.Feasible) (h : t.Chooses eps mode j i) (h0 : 0 < eps) :
    0 ≤ t.ratio j i :=
  hf.ratio_nonneg_of_lt h0 h.lt_entry

/-- A row without a positive entry only gains. -/
theorem Feasible.levelAfter_nonneg_of_ratio (hf : t.Feasible) (hratio : 0 ≤ t.ratio j i) {r : Fin m}
    (hneg : t.entry r j ≤ 0) : 0 ≤ t.levelAfter j i r := by
  have hmul := mul_nonpos_of_nonpos_of_nonneg hneg hratio
  have hlevel := hf r
  rw [levelAfter]
  linarith

/-- A row whose entry is not positive rises, or stays. -/
theorem Feasible.levelAfter_nonneg_of_nonpos (hf : t.Feasible) (h0 : 0 < eps)
    (h : t.Chooses eps mode j i) {r : Fin m} (hneg : t.entry r j ≤ 0) : 0 ≤ t.levelAfter j i r :=
  hf.levelAfter_nonneg_of_ratio (hf.ratio_nonneg h h0) hneg

/-- The step of a chosen pivot makes no right-hand side negative. -/
theorem Feasible.levelAfter_nonneg (hf : t.Feasible) (hp : t.Presents P) (hr : P.ResolvedBy eps)
    (h0 : 0 < eps) (h : t.Chooses eps mode j i) (r : Fin m) : 0 ≤ t.levelAfter j i r := by
  rcases lt_or_ge 0 (t.entry r j) with hpos | hneg
  · -- a positive entry is above the tolerance, so row `r` took part in the ratio test
    exact h.levelAfter_nonneg h0 ((hp.lt_entry_iff hr h0 (hp.allowed_of_chooses h) r).2 hpos)
  · exact hf.levelAfter_nonneg_of_nonpos h0 h hneg

/-- A chosen pivot presents the same problem. -/
theorem Presents.pivot_of_chooses (hp : t.Presents P) (hf : t.Feasible) (hr : P.ResolvedBy eps)
    (h0 : 0 < eps) (h : t.Chooses eps mode j i) : (t.pivot eps j i).Presents P :=
  hp.pivot eps (hp.allowed_of_chooses h) (h.entry_pos h0).ne' fun r _ =>
    hf.levelAfter_nonneg hp hr h0 h r

/-- It keeps all levels nonnegative, too. -/
theorem Feasible.pivot_of_chooses (hf : t.Feasible) (hp : t.Presents P) (hr : P.ResolvedBy eps)
    (h0 : 0 < eps) (h : t.Chooses eps mode j i) : (t.pivot eps j i).Feasible := by
  intro r
  by_cases hri : r = i
  · rw [hri, t.level_pivot_self]
    exact hf.ratio_nonneg h h0
  · have hl := hf.levelAfter_nonneg hp hr h0 h r
    rw [t.level_pivot_of_ne eps hri hl]
    exact hl

end Step

end Tableau

/-! ## The whole run -/

section Run

variable {F E : Type} [Scalar F] {L : Layout} {m : Nat} {t : Tableau F L m} {phase : Phase} {eps : F}
  {left pivots : Nat} {s : Strategy} {x : Vector F L.columns}

namespace Tableau

/-- A descent ends where no column is profitable, with the solution written down. -/
theorem result_descend_of_optimal (h : t.enteringColumn? eps s.mode = none) :
    (t.descend (E := E) phase eps left pivots s x).result = .ok ⟨.optimal, t, t.writeSolution x, pivots⟩ := by
  unfold descend
  rw [h]
  rfl

/-- It ends as well where no row keeps the entering column from rising. -/
theorem result_descend_of_unlimited {j : Fin L.columns} (h : t.enteringColumn? eps s.mode = some j)
    (hj : t.leavingRow? eps s.mode.tieBreak j = none) :
    (t.descend (E := E) phase eps left pivots s x).result =
      .ok ⟨.unbounded j, t, t.writeSolution x, pivots⟩ := by
  unfold descend
  rw [h]
  simp only [hj]
  rfl

/-- If a pivot is chosen and none is left, the descent fails. -/
theorem result_descend_zero {j : Fin L.columns} {i : Fin m} (h : t.Chooses eps s.mode j i) :
    (t.descend (E := E) phase eps 0 pivots s x).result = .error (.pivotLimit phase pivots) := by
  unfold descend
  rw [h.entering]
  simp only [h.leaving]
  rfl

/-- Otherwise it goes on after the pivot, in the mode that the strategy has then and with the solution written down
    before. -/
theorem result_descend_succ {j : Fin L.columns} {i : Fin m} (h : t.Chooses eps s.mode j i) :
    (t.descend (E := E) phase eps (left + 1) pivots s x).result =
      ((t.pivot eps j i).descend (E := E) phase eps left (pivots + 1)
        (s.afterPivot (isDegenerate eps (t.ratio j i))) (t.writeSolution x)).result := by
  rw [descend, h.entering]
  simp only [h.leaving]
  rfl

/-- Either no column enters, or one enters that no row limits, or a pivot is chosen. -/
theorem choice_cases (t : Tableau F L m) (eps : F) (mode : Mode) :
    t.enteringColumn? eps mode = none ∨
      (∃ j, t.enteringColumn? eps mode = some j ∧ t.leavingRow? eps mode.tieBreak j = none) ∨
      ∃ j i, t.Chooses eps mode j i := by
  cases hj : t.enteringColumn? eps mode with
  | none => exact Or.inl rfl
  | some j =>
    cases hi : t.leavingRow? eps mode.tieBreak j with
    | none => exact Or.inr (Or.inl ⟨j, rfl, hi⟩)
    | some i => exact Or.inr (Or.inr ⟨j, i, hj, hi⟩)

end Tableau

/-- Where a descent ends, no column is profitable, or one is that no row limits. -/
def Descent.Ended (d : Descent F L m) (eps : F) : Prop :=
  match d.status with
  | .optimal => d.tableau.profitable eps = []
  | .unbounded j => j ∈ d.tableau.profitable eps ∧ ∀ i, ¬ eps < d.tableau.entry i j

/-- A descent that ends is at its end already, with the solution of its tableau in the buffer, or goes on from a chosen
    pivot. -/
theorem Tableau.descend_cases {d : Descent F L m}
    (hd : (t.descend (E := E) phase eps left pivots s x).result = .ok d) :
    (d.tableau = t ∧ d.values = t.writeSolution x ∧ d.Ended eps) ∨
      ∃ j i left', t.Chooses eps s.mode j i ∧ left = left' + 1 ∧
        ((t.pivot eps j i).descend (E := E) phase eps left' (pivots + 1)
          (s.afterPivot (isDegenerate eps (t.ratio j i))) (t.writeSolution x)).result = .ok d := by
  rcases t.choice_cases eps s.mode with hj | ⟨j, hj, hi⟩ | ⟨j, i, hc⟩
  · rw [result_descend_of_optimal hj] at hd
    cases hd
    exact Or.inl ⟨rfl, rfl, enteringColumn?_eq_none_iff.1 hj⟩
  · rw [result_descend_of_unlimited hj hi] at hd
    cases hd
    exact Or.inl ⟨rfl, rfl, mem_profitable_of_enteringColumn? hj, leavingRow?_eq_none_iff.1 hi⟩
  · cases left with
    | zero =>
      rw [result_descend_zero hc] at hd
      cases hd
    | succ left' =>
      rw [result_descend_succ hc] at hd
      exact Or.inr ⟨j, i, left', hc, rfl, hd⟩

/-- What every chosen pivot keeps holds where the descent ends, and there the solution was written down last. -/
theorem Tableau.descend_induct {I : Tableau F L m → Prop}
    (hstep : ∀ t mode j i, I t → t.Chooses eps mode j i → I (t.pivot eps j i))
    {d : Descent F L m} : ∀ (left pivots : Nat) (s : Strategy) (x : Vector F L.columns) (t : Tableau F L m), I t →
      (t.descend (E := E) phase eps left pivots s x).result = .ok d →
        I d.tableau ∧ d.Ended eps ∧ d.values = d.tableau.writeSolution x := by
  intro left
  induction left with
  | zero =>
    intro pivots s x t hI hd
    rcases descend_cases hd with ⟨rfl, hvalues, hend⟩ | ⟨j, i, left', -, hleft, -⟩
    · exact ⟨hI, hend, hvalues⟩
    · cases hleft
  | succ left ih =>
    intro pivots s x t hI hd
    rcases descend_cases hd with ⟨rfl, hvalues, hend⟩ | ⟨j, i, left', hc, hleft, hd'⟩
    · exact ⟨hI, hend, hvalues⟩
    · cases hleft
      obtain ⟨hI', hend, hvalues⟩ := ih _ _ _ _ (hstep t s.mode j i hI hc) hd'
      exact ⟨hI', hend, hvalues.trans (d.tableau.writeSolution_congr _ x)⟩

/-- A descent ends because of what its last tableau shows. -/
theorem Tableau.ended_of_descend {d : Descent F L m}
    (hd : (t.descend (E := E) phase eps left pivots s x).result = .ok d) : d.Ended eps :=
  (descend_induct (I := fun _ => True) (fun _ _ _ _ _ _ => trivial) left pivots s x t trivial hd).2.1

/-- A descent that starts with no column basic in two rows ends so, and then the buffer holds the basic solution. -/
theorem Tableau.values_of_descend (h : Function.Injective t.basic) {d : Descent F L m}
    (hd : (t.descend (E := E) phase eps left pivots s x).result = .ok d) :
    Function.Injective d.tableau.basic ∧ d.values = d.tableau.basicSolution := by
  have hkeep : ∀ (u : Tableau F L m) mode j i, Function.Injective u.basic → u.Chooses eps mode j i →
      Function.Injective (u.pivot eps j i).basic :=
    fun u mode j i hu hc => basic_injective_pivot hu eps i hc.not_basic
  obtain ⟨hinjective, -, hvalues⟩ := descend_induct hkeep left pivots s x t h hd
  exact ⟨hinjective, hvalues.trans (writeSolution_eq hinjective x)⟩

/-- The decision variables of the basic solution, with the value of the objective. -/
def Tableau.solution (t : Tableau F L m) (direction : Direction) : Solution F :=
  ⟨direction.orient t.value, t.basicSolution.toList.take L.decision⟩

/-- What is read off the end of a descent is the basic solution of its tableau. -/
theorem Descent.solution_eq {d : Descent F L m} (h : d.values = d.tableau.basicSolution) (direction : Direction) :
    d.solution direction = d.tableau.solution direction := by
  rw [Descent.solution, h, Tableau.solution]

end Run

/-! ## What the end means -/

namespace Tableau

section End

variable [IsStrictOrderedRing F] {P : Problem F L} {t : Tableau F L m} {eps : F}

/-- Where nothing is profitable, no point of the problem has a lower objective. -/
theorem Presents.value_le_of_profitable_eq_nil (hp : t.Presents P) (hr : P.ResolvedBy eps)
    (h0 : 0 < eps) (hend : t.profitable eps = []) {x : Fin L.columns → F} (hx : P.Point x) :
    t.value ≤ P.objective x := by
  have hcost : ∀ k, 0 ≤ t.objective.cell k * x k := by
    intro k
    rcases Bool.eq_false_or_eq_true (P.allowed k) with hk | hk
    · refine mul_nonneg ?_ (hx.nonneg k)
      rcases t.basic_or_not k with ⟨i, rfl⟩ | hb
      · exact (hp.priced i).ge
      · -- an allowed column outside the basis is a candidate
        by_contra hneg
        have hprof : k ∈ t.profitable eps := mem_profitable.2
          ⟨mem_candidates.2 ⟨by rw [hp.eligible, hk], hb⟩,
            (hp.cost_lt_iff hr h0 hk).2 (not_le.1 hneg)⟩
        rw [hend] at hprof
        cases hprof
    · rw [hx.within k hk, mul_zero]
  rw [← hp.objective_eq x hx.within hx.solves, objectiveAt]
  exact le_add_of_nonneg_left (Finset.sum_nonneg fun k _ => hcost k)

/-- Where nothing is profitable, the value of the tableau is the least one. -/
theorem Presents.isLeast_value (hp : t.Presents P) (hf : t.Feasible) (hr : P.ResolvedBy eps)
    (h0 : 0 < eps) (hend : t.profitable eps = []) :
    IsLeast P.values t.value := by
  refine ⟨⟨t.solutionAt, hp.point_solutionAt hf, hp.objective_solutionAt⟩, ?_⟩
  rintro v ⟨x, hx, rfl⟩
  exact hp.value_le_of_profitable_eq_nil hr h0 hend hx

/-- Where all entries of a column are at most zero, raising it makes no value negative. -/
theorem Feasible.raise_nonneg (hf : t.Feasible) (hc : t.Canonical) {j : Fin L.columns}
    (hj : ∀ i, t.entry i j ≤ 0) {step : F} (hstep : 0 ≤ step) (k : Fin L.columns) :
    0 ≤ t.raise j step k := by
  rw [raise]
  rcases t.basic_or_not k with ⟨i, rfl⟩ | hb
  · rw [hc.solutionAt_basic, hc.ray_basic]
    have := mul_nonneg hstep (neg_nonneg.2 (hj i))
    exact add_nonneg (hf i) this
  · rw [solutionAt_of_not_basic hb, ray_of_not_basic hb]
    refine add_nonneg (le_refl 0) (mul_nonneg hstep ?_)
    split
    · exact zero_le_one
    · exact le_refl 0

/-- Along a profitable column that no row limits, the objective falls below every bound. -/
theorem Presents.exists_objective_lt (hp : t.Presents P) (hf : t.Feasible) (hr : P.ResolvedBy eps)
    (h0 : 0 < eps) {j : Fin L.columns} (hj : j ∈ t.profitable eps)
    (hno : ∀ i, ¬ eps < t.entry i j) (bound : F) :
    ∃ x, P.Point x ∧ P.objective x < bound := by
  obtain ⟨hcand, hcost⟩ := mem_profitable.1 hj
  obtain ⟨helig, hb⟩ := mem_candidates.1 hcand
  have hallow : P.allowed j = true := by rw [← hp.eligible, helig]
  have hneg : t.cost j < 0 := (hp.cost_lt_iff hr h0 hallow).1 hcost
  have hent : ∀ i, t.entry i j ≤ 0 := fun i =>
    not_lt.1 fun hpos => hno i ((hp.lt_entry_iff hr h0 hallow i).2 hpos)
  -- far enough to make up for the distance to the bound, and one further
  let step := |t.value - bound| / -t.cost j + 1
  have hstep : 0 ≤ step :=
    add_nonneg (div_nonneg (abs_nonneg _) (neg_nonneg.2 hneg.le)) zero_le_one
  refine ⟨t.raise j step, ⟨hp.within_raise hallow step, hp.solves_raise hallow hb step,
    hf.raise_nonneg hp.canonical hent hstep⟩, ?_⟩
  have hfall : step * t.cost j = -|t.value - bound| + t.cost j := by
    have hne : t.cost j ≠ 0 := hneg.ne
    simp only [step]
    field_simp
  rw [hp.objective_raise hallow hb, hfall]
  have := le_abs_self (t.value - bound)
  linarith

end End

end Tableau

/-- What the end of a descent says about the problem: the value is the least one, or there is none. -/
def Descent.Settles (d : Descent F L m) (P : Problem F L) : Prop :=
  match d.status with
  | .optimal => IsLeast P.values d.tableau.value
  | .unbounded _ => ∀ bound, ∃ x, P.Point x ∧ P.objective x < bound

/-- A descent under a tolerance that resolves the problem ends in a feasible tableau of the problem and settles
    it. -/
theorem Tableau.Presents.descend [IsStrictOrderedRing F] {P : Problem F L} {t : Tableau F L m}
    {eps : F} (hp : t.Presents P) (hf : t.Feasible) (hr : P.ResolvedBy eps) (h0 : 0 < eps)
    {E : Type} {phase : Phase} {left pivots : Nat} {s : Strategy} {x : Vector F L.columns} {d : Descent F L m}
    (hd : (t.descend (E := E) phase eps left pivots s x).result = .ok d) :
    d.tableau.Presents P ∧ d.tableau.Feasible ∧ d.Settles P := by
  have hkeep : ∀ (u : Tableau F L m) mode j i, u.Presents P ∧ u.Feasible →
      u.Chooses eps mode j i → (u.pivot eps j i).Presents P ∧ (u.pivot eps j i).Feasible :=
    fun u mode j i hu hc =>
      ⟨hu.1.pivot_of_chooses hu.2 hr h0 hc, hu.2.pivot_of_chooses hu.1 hr h0 hc⟩
  obtain ⟨⟨hp', hf'⟩, hend, -⟩ := descend_induct hkeep left pivots s x t ⟨hp, hf⟩ hd
  refine ⟨hp', hf', ?_⟩
  rw [Descent.Settles]
  rw [Descent.Ended] at hend
  split at hend
  · exact hp'.isLeast_value hf' hr h0 hend
  · exact hp'.exists_objective_lt hf' hr h0 hend.1 hend.2

end Simplex
