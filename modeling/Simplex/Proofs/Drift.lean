/-
  How far the reported value can be from the cost of the reported point.

  The value is read off the objective row and the point off the right-hand sides.  Where a pivot leaves a right-hand
  side a little below zero and it is set to zero, the basic variable of the row rises, but the objective row is not
  told.

  1. `lift` — what such a row gains, at most the tolerance.
  2. `drift` — value less cost of the basic solution.  Loading a cost starts without drift, and a pivot adds to it
     what the lifted basic variables cost (`PricedBy.drift_pivot`).
  3. `abs_drift_le_of_trail` — over a run, the drift is at most the number of pivots, times the tolerance, times
     the sum of all costs; and it stays where it is as long as no pivot rounds (`drift_eq_of_trail`).
  4. `Program.abs_value_sub_costAt_le` — this is how far value and point of a solution can be apart, and
     `Program.tilted` — a program for which they are.
-/
import Simplex.Proofs.Oversteps
import Simplex.Proofs.Pricing

namespace Simplex

variable {F : Type} [Field F] [LinearOrder F] {L : Layout} {m : Nat}

/-! ## What rounding adds -/

/-- What a right-hand side gains when it is looked at for rounding errors. -/
def lift (eps x : F) : F := settle eps x - x

theorem lift_of_not {eps x : F} (h : ¬ (x < 0 ∧ -eps < x)) : lift eps x = 0 := by
  rw [lift, settle, if_neg h, sub_self]

theorem abs_lift_le [IsStrictOrderedRing F] {eps : F} (h0 : 0 < eps) (x : F) : |lift eps x| ≤ eps := by
  by_cases h : x < 0 ∧ -eps < x
  · rw [lift, settle, if_pos h, zero_sub, abs_neg, abs_of_neg h.1]
    linarith [h.2]
  · rw [lift_of_not h, abs_zero]
    exact h0.le

namespace Tableau

/-- The next pivot takes a right-hand side below zero by less than the tolerance, so that it is set to zero. -/
def Rounds (t : Tableau F L m) (eps : F) : Prop :=
  t.Invites eps fun j i => ∃ r, r ≠ i ∧ t.levelAfter j i r < 0 ∧ -eps < t.levelAfter j i r

instance (t : Tableau F L m) (eps : F) : Decidable (t.Rounds eps) :=
  inferInstanceAs (Decidable (t.Invites eps _))

/-! ## One pivot -/

/-- The value of the tableau less what its basic solution costs. -/
def drift (t : Tableau F L m) (c : Fin L.columns → F) : F := t.value - t.basicCost c

section Step

variable {t : Tableau F L m} {c : Fin L.columns → F} {eps : F} {j : Fin L.columns} {i : Fin m}

/-- A pivot takes from the drift what the rounded basic variables cost. -/
theorem PricedBy.drift_pivot (hp : t.PricedBy c) (eps : F) (hij : t.entry i j ≠ 0) :
    (t.pivot eps j i).drift c =
      t.drift c - ∑ r ∈ Finset.univ.erase i, c (t.basic r) * lift eps (t.levelAfter j i r) := by
  -- the levels as they would be without rounding
  let g := Function.update (t.levelAfter j i) i (t.ratio j i)
  have hself : g i = t.ratio j i := Function.update_self ..
  have hother : ∀ r, r ≠ i → g r = t.levelAfter j i r := fun r hr => Function.update_of_ne hr ..
  have hexact := hp.sum_basic_pivot (i := i) (j := j) eps (g := g) (h := t.level)
    (by rw [hself, ratio]; field_simp) (fun r hr => by rw [hother r hr, hself]; rfl)
  have hround : (t.pivot eps j i).basicCost c = ∑ r, c ((t.pivot eps j i).basic r) * g r +
      ∑ r ∈ Finset.univ.erase i, c (t.basic r) * lift eps (t.levelAfter j i r) := by
    rw [basicCost, ← Finset.add_sum_erase Finset.univ _ (Finset.mem_univ i),
      ← Finset.add_sum_erase Finset.univ (fun r => c ((t.pivot eps j i).basic r) * g r) (Finset.mem_univ i),
      t.level_pivot_self, hself, add_assoc, ← Finset.sum_add_distrib]
    congr 1
    refine Finset.sum_congr rfl ?_
    intro r hmem
    have hr := Finset.ne_of_mem_erase hmem
    rw [t.level_pivot eps hr, basic_pivot_of_ne t eps j hr, hother r hr, lift]
    ring
  rw [drift, hround, hexact, t.value_pivot, hself, drift, basicCost]
  ring

/-- A pivot that rounds nothing keeps the drift. -/
theorem PricedBy.drift_pivot_of_not_rounds (hp : t.PricedBy c) (hij : t.entry i j ≠ 0) {mode : Mode}
    (hc : t.Chooses eps mode j i) (hround : ¬ t.Rounds eps) : (t.pivot eps j i).drift c = t.drift c := by
  rw [hp.drift_pivot eps hij, Finset.sum_eq_zero, sub_zero]
  intro r hmem
  rw [lift_of_not, mul_zero]
  intro hneg
  exact hround ⟨mode, j, i, hc, r, Finset.ne_of_mem_erase hmem, hneg⟩

variable [IsStrictOrderedRing F]

/-- Every column is basic in at most one row. -/
theorem Canonical.sum_abs_basic_le (h : t.Canonical) (c : Fin L.columns → F) :
    ∑ r, |c (t.basic r)| ≤ ∑ k, |c k| := by
  rw [← Finset.sum_image (f := fun k => |c k|) (g := t.basic) fun r _ r' _ hrr => h.basic_injective hrr]
  exact Finset.sum_le_univ_sum_of_nonneg fun k => abs_nonneg (c k)

/-- A pivot adds to the drift at most the tolerance times the sum of all costs. -/
theorem PricedBy.abs_drift_pivot_le (hp : t.PricedBy c) (h : t.Canonical) (h0 : 0 < eps)
    (hij : t.entry i j ≠ 0) : |(t.pivot eps j i).drift c| ≤ |t.drift c| + eps * ∑ k, |c k| := by
  have hsum : |∑ r ∈ Finset.univ.erase i, c (t.basic r) * lift eps (t.levelAfter j i r)| ≤
      eps * ∑ k, |c k| :=
    calc |∑ r ∈ Finset.univ.erase i, c (t.basic r) * lift eps (t.levelAfter j i r)|
        ≤ ∑ r ∈ Finset.univ.erase i, |c (t.basic r) * lift eps (t.levelAfter j i r)| :=
          Finset.abs_sum_le_sum_abs ..
      _ ≤ ∑ r ∈ Finset.univ.erase i, eps * |c (t.basic r)| := by
          refine Finset.sum_le_sum ?_
          intro r _
          rw [abs_mul, mul_comm]
          exact mul_le_mul_of_nonneg_right (abs_lift_le h0 _) (abs_nonneg _)
      _ ≤ ∑ r, eps * |c (t.basic r)| :=
          Finset.sum_le_sum_of_subset_of_nonneg (Finset.erase_subset ..)
            fun r _ _ => mul_nonneg h0.le (abs_nonneg _)
      _ = eps * ∑ r, |c (t.basic r)| := (Finset.mul_sum ..).symm
      _ ≤ eps * ∑ k, |c k| := mul_le_mul_of_nonneg_left (h.sum_abs_basic_le c) h0.le
  rw [hp.drift_pivot eps hij]
  exact (abs_sub _ _).trans (add_le_add_right hsum _)

end Step

/-! ## Along a run -/

section Run

variable [IsStrictOrderedRing F] {c : Fin L.columns → F} {eps : F} {a b : Snapshot F L}
  {l : List (Snapshot F L)}

/-- Over a run the drift grows by at most so much with every pivot. -/
theorem abs_drift_le_of_trail (h0 : 0 < eps) (h : Trail (Snapshot.PivotsTo eps) a l b)
    (ha : a.tableau.Canonical ∧ a.tableau.PricedBy c) :
    |b.tableau.drift c| ≤ |a.tableau.drift c| + l.length * (eps * ∑ k, |c k|) := by
  induction h with
  | nil => simp
  | cons head tail ih =>
    have hnext := ih (canonical_pricedBy_of_stepsInOne h0 ha (Or.inl head))
    cases head with
    | intro hc =>
      have hstep := ha.2.abs_drift_pivot_le ha.1 h0 (hc.entry_pos h0).ne'
      rw [List.length_cons, Nat.cast_add, Nat.cast_one, add_mul, one_mul]
      linarith

/-- A run that rounds nothing keeps the drift. -/
theorem drift_eq_of_trail (h0 : 0 < eps) (h : Trail (Snapshot.PivotsTo eps) a l b)
    (ha : a.tableau.Canonical ∧ a.tableau.PricedBy c) (hround : ∀ u ∈ a :: l, ¬ u.tableau.Rounds eps) :
    b.tableau.drift c = a.tableau.drift c := by
  refine (h.keeps_to_last (I := fun s => (s.tableau.Canonical ∧ s.tableau.PricedBy c) ∧
    s.tableau.drift c = a.tableau.drift c) ?_ ⟨ha, rfl⟩ hround).2
  intro u v hu hgood huv
  refine ⟨canonical_pricedBy_of_stepsInOne h0 hu.1 (Or.inl huv), ?_⟩
  cases huv with
  | intro hc =>
    rw [← hu.2]
    exact hu.1.2.drift_pivot_of_not_rounds (hc.entry_pos h0).ne' hc hgood

end Run

end Tableau

/-! ## Value and point of a solution -/

theorem Direction.abs_orient_sub_orient (direction : Direction) (x y : F) :
    |direction.orient x - direction.orient y| = |x - y| := by
  cases direction with
  | minimize => rfl
  | maximize =>
    show |-x - -y| = _
    rw [neg_sub_neg, abs_sub_comm]

theorem Direction.abs_orient (direction : Direction) (x : F) : |direction.orient x| = |x| := by
  cases direction with
  | minimize => rfl
  | maximize => exact abs_neg x

namespace Program

variable {p : Program F} {options : Options F}

omit [LinearOrder F] in
theorem sum_getD : ∀ (l : List F) (n : Nat), l.length ≤ n → ∑ j : Fin n, l.getD j 0 = l.sum
  | [], n, _ => by simp
  | x :: l, n + 1, h => by
    rw [Fin.sum_univ_succ, List.sum_cons, ← sum_getD l n (Nat.le_of_succ_le_succ h)]
    rfl

/-- The oriented costs of all columns. -/
def columnCost (p : Program F) : Fin p.layout.columns → F :=
  (Tableau.decisionCost p.direction p.costVector).cell

theorem sum_abs_columnCost [IsStrictOrderedRing F] (p : Program F) :
    ∑ j, |p.columnCost j| = (p.cost.map fun c => |c|).sum := by
  have hlen : (p.cost.map fun c => |c|).length ≤ p.layout.columns := by
    rw [List.length_map]
    exact p.layout.decision_le_columns
  rw [← sum_getD _ _ hlen]
  refine Finset.sum_congr rfl ?_
  intro j _
  have hmap : (p.cost.map fun c => |c|).getD j |0| = |p.cost.getD j 0| := List.getD_map ..
  rw [columnCost, cell_decisionCost, Direction.abs_orient, ← hmap, abs_zero]

/-- The drift of a tableau is what its solution shows. -/
theorem abs_value_sub_costAt_solution {m : Nat} {t : Tableau F p.layout m} (h : t.Canonical) :
    |(t.solution p.direction).value - p.costAt (t.solution p.direction).point| =
      |t.drift p.columnCost| := by
  have hcost : p.costAt (t.solution p.direction).point = p.direction.orient (t.basicCost p.columnCost) := by
    rw [← h.sum_mul_solutionAt]
    show _ = p.direction.orient ((Tableau.decisionCost p.direction p.costVector).eval t.solutionAt)
    rw [eval_decisionCost, Direction.orient_orient, Tableau.point_solution]
  rw [hcost]
  exact Direction.abs_orient_sub_orient ..

/-- A solution is read off the last tableau of a second phase, which went from pivot to pivot from a tableau solved
    for its basis. -/
theorem exists_trail_of_solve [IsStrictOrderedRing F] (h0 : 0 < options.eps) {o : Outcome F p.layout}
    {s : Solution F} (ho : (p.solve options).result = .ok o) (hs : o.verdict = .optimal s) :
    ∃ (m : Nat) (u : Tableau F p.layout m) (l : List (Snapshot F p.layout)), u.Canonical ∧
      Trail (Snapshot.PivotsTo options.eps) ⟨m, u.loadCost p.direction p.costVector⟩ l o.final ∧
      l.length = o.pivots.phaseTwo ∧ s = o.final.tableau.solution p.direction ∧
      ∀ v ∈ (⟨m, u.loadCost p.direction p.costVector⟩ : Snapshot F p.layout) :: l,
        v ∈ (p.solve options).reached := by
  obtain ⟨t, ht⟩ := exists_tableau_of_solve ho
  rw [result_solve ht h0] at ho
  obtain ⟨f, hf, -⟩ := Journal.result_bind_eq_ok_iff.1 ho
  cases f with
  | infeasible final pivots =>
    rw [Tableau.result_runPhases_of_infeasible hf] at ho
    cases ho
    cases hs
  | feasible basis =>
    obtain ⟨l, b, hreached, htrail, hlast⟩ :=
      basis.tableau.trail_improve options p.direction p.costVector basis.pivots basis.values
    rw [Tableau.result_runPhases_of_feasible hf] at ho
    obtain ⟨hfinal, hcount⟩ := hlast o ho
    have hcanonical := (fresh ht).canonical_of_findFeasible h0 hf
    refine ⟨_, basis.tableau, l, hcanonical, hfinal ▸ htrail, hcount.symm, ?_, ?_⟩
    · obtain ⟨d, hd⟩ := Tableau.exists_descent_of_improve ho
      rw [Tableau.result_improve hd] at ho
      cases ho
      have hverdict : d.verdict p.direction = .optimal s := hs
      rw [Descent.verdict] at hverdict
      split at hverdict
      · -- the buffer was written last from the tableau where the descent ended
        have hloaded : Function.Injective (basis.tableau.loadCost p.direction p.costVector).basic :=
          hcanonical.basic_injective
        obtain ⟨-, hvalues⟩ := Tableau.values_of_descend hloaded hd
        rw [← Verdict.optimal.inj hverdict, Descent.solution_eq hvalues]
      · cases hverdict
    · intro v hv
      rw [reached_solve ht h0, Tableau.reached_runPhases_of_feasible hf, hreached]
      exact List.mem_append_right _ hv

/-- **Value and point.**  Whatever the positive tolerance, the rule and the limit, the value of an optimal solution
    differs from the cost of its point by no more than the tolerance times the sum of all costs for every pivot of
    the second phase, and not at all if no tableau reached rounds. -/
theorem abs_value_sub_costAt_le [IsStrictOrderedRing F] (p : Program F) (options : Options F)
    (h0 : 0 < options.eps) {o : Outcome F p.layout} {s : Solution F}
    (ho : (p.solve options).result = .ok o) (hs : o.verdict = .optimal s) :
    |s.value - p.costAt s.point| ≤ o.pivots.phaseTwo * (options.eps * (p.cost.map fun c => |c|).sum) ∧
      ((∀ u ∈ (p.solve options).reached, ¬ u.tableau.Rounds options.eps) →
        s.value = p.costAt s.point) := by
  obtain ⟨m, u, l, hu, htrail, hcount, rfl, hmem⟩ := exists_trail_of_solve h0 ho hs
  have hstart : (u.loadCost p.direction p.costVector).Canonical ∧
      (u.loadCost p.direction p.costVector).PricedBy p.columnCost :=
    ⟨hu, hu.pricedBy_loadCost p.direction p.costVector⟩
  have hzero : (u.loadCost p.direction p.costVector).drift p.columnCost = 0 :=
    sub_eq_zero.2 (hu.value_loadCost p.direction p.costVector)
  have hend : o.final.tableau.Canonical ∧ o.final.tableau.PricedBy p.columnCost :=
    htrail.keeps (I := fun v => v.tableau.Canonical ∧ v.tableau.PricedBy p.columnCost)
      (fun _ _ hv hstep => Tableau.canonical_pricedBy_of_stepsInOne h0 hv (Or.inl hstep)) hstart _
      htrail.last_mem
  constructor
  · have hdrift := Tableau.abs_drift_le_of_trail h0 htrail hstart
    rw [hzero, abs_zero, zero_add, hcount, sum_abs_columnCost] at hdrift
    rw [abs_value_sub_costAt_solution hend.1]
    exact hdrift
  · intro hround
    have hdrift := Tableau.drift_eq_of_trail h0 htrail hstart fun v hv => hround v (hmem v hv)
    rw [hzero] at hdrift
    refine sub_eq_zero.1 (abs_eq_zero.1 ?_)
    rw [abs_value_sub_costAt_solution hend.1, hdrift, abs_zero]

/-- Two variables whose sum is limited, or almost: the first one counts for less than a billionth in it. -/
def tilted (bound : ℚ) : Program ℚ where
  direction := .minimize
  cost := [-2, -2 ^ 30]
  constraints := [⟨[1 / 2 ^ 30, 1], .le, bound⟩, ⟨[1], .le, 1⟩]

/-- With a bound of one nothing is rounded, and the value of `tilted` is the cost of its point. -/
theorem abs_value_sub_costAt_le_tilted : ∃ o s, ((tilted 1).solve standardExact).result = .ok o ∧
    o.verdict = .optimal s ∧
    (∀ u ∈ ((tilted 1).solve standardExact).reached, ¬ u.tableau.Rounds standardExact.eps) ∧
    |s.value - (tilted 1).costAt s.point| ≤
      o.pivots.phaseTwo * (standardExact.eps * ((tilted 1).cost.map fun c => |c|).sum) ∧
    s.value = (tilted 1).costAt s.point := by
  have hround : ∀ u ∈ ((tilted 1).solve standardExact).reached, ¬ u.tableau.Rounds standardExact.eps := by
    decide +kernel
  have hend : endsOptimal ((tilted 1).solve standardExact).result (fun _ _ => true) = true := by decide +kernel
  obtain ⟨o, s, ho, hs, -⟩ := exists_of_endsOptimal hend
  obtain ⟨hle, heq⟩ := abs_value_sub_costAt_le (tilted 1) standardExact (by decide +kernel) ho hs
  exact ⟨o, s, ho, hs, hround, hle, heq hround⟩

/-- With a bound of zero the value of `tilted` is minus one, but its point costs minus two: entering the first
    variable takes the second one below zero by less than the tolerance. -/
theorem value_ne_costAt_tilted : 0 < standardExact.eps ∧
    ∃ o s, ((tilted 0).solve standardExact).result = .ok o ∧ o.verdict = .optimal s ∧
      s.point = [1, 0] ∧ s.value = -1 ∧ s.value ≠ (tilted 0).costAt s.point := by
  have hend : endsOptimal ((tilted 0).solve standardExact).result (fun _ s =>
      decide (s.point = [1, 0] ∧ s.value = -1 ∧ s.value ≠ (tilted 0).costAt s.point)) = true := by decide +kernel
  obtain ⟨o, s, ho, hs, hvalues⟩ := exists_of_endsOptimal hend
  exact ⟨by decide +kernel, o, s, ho, hs, of_decide_eq_true hvalues⟩

end Program

end Simplex
