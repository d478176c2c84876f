/-
  Every tableau knows how it came out of the first one.

  The columns of the first basis start as unit columns, and whatever is done to the rows is done to these columns too.
  So they hold the multipliers with which the rows of a tableau were made of the first rows; and what the relative
  costs have lost there are the prices of the first rows.  Right-hand sides play no part in this, and may be cleared or
  taken for zero at any time.

  1. `Combines first v` — `v` is a combination of the rows of `first`, with the numbers it has in the columns of the
     first basis for multipliers.  Combinations of combinations are combinations (`Combines.subtract`, `Combines.sum`).
  2. `Derived` — every row is such a combination, and so is what was taken away from the costs that were loaded.  One
     lemma per operation, then every tableau that is led to (`LeadsTo.derived`).
  3. `Combines.sum_mul` — on the solutions of the first tableau a combination of its rows is the same combination of
     its levels.  With relative costs that are hardly negative this bounds the cost from below
     (`Derived.prices_le_cost`).
  4. `leadsWith_of_optimal`, `Purged.neg_eps_le_cost` — a run that finds an optimum leads to such a tableau.
-/
import Simplex.Proofs.Representation
import Simplex.Proofs.Termination

namespace Simplex.Tableau

variable {F : Type} [Field F] {L : Layout} {m n : Nat}

/-! ## Combinations of the first rows -/

/-- The numbers `v` are a combination of the rows of `first`; the multipliers stand in the columns of its basis. -/
def Combines (first : Tableau F L m) (v : Fin L.columns → F) : Prop :=
  ∀ j, v j = ∑ i, v (first.basic i) * first.entry i j

section Combines

variable {first : Tableau F L m} {v w : Fin L.columns → F}

/-- The first rows are combinations of themselves. -/
theorem Canonical.combines_entry (h : first.Canonical) (i : Fin m) : Combines first (first.entry i) := by
  intro j
  rw [Finset.sum_eq_single i]
  · rw [h i i, if_pos rfl, one_mul]
  · intro k _ hne
    rw [h i k, if_neg hne.symm, zero_mul]
  · intro hi
    exact absurd (Finset.mem_univ i) hi

/-- Subtracting a multiple of one combination of the first rows from another gives a third one. -/
theorem Combines.subtract (hv : Combines first v) (hw : Combines first w) (a : F) :
    Combines first fun j => v j - a * w j := by
  intro j
  simp only [sub_mul, mul_assoc, Finset.sum_sub_distrib, ← Finset.mul_sum]
  rw [← hv j, ← hw j]

/-- Dividing a combination of the first rows gives another one. -/
theorem Combines.divide (hv : Combines first v) (a : F) : Combines first fun j => v j / a := by
  intro j
  simp only [div_mul_eq_mul_div, ← Finset.sum_div]
  rw [← hv j]

/-- So does adding multiples of several. -/
theorem Combines.sum {u : Fin n → Fin L.columns → F} (hu : ∀ k, Combines first (u k)) (a : Fin n → F) :
    Combines first fun j => ∑ k, a k * u k j := by
  intro j
  simp only [Finset.sum_mul]
  rw [Finset.sum_comm]
  refine Finset.sum_congr rfl ?_
  intro k _
  rw [hu k j, Finset.mul_sum]
  refine Finset.sum_congr rfl ?_
  intro i _
  ring

/-- On the solutions of `first`, a combination of its rows is the same combination of its levels. -/
theorem Combines.sum_mul (hv : Combines first v) {x : Fin L.columns → F} (hx : first.Holds x) :
    ∑ j, v j * x j = ∑ i, v (first.basic i) * first.level i := by
  have hterm : ∀ j, v j * x j = ∑ i, v (first.basic i) * (first.entry i j * x j) := by
    intro j
    rw [hv j, Finset.sum_mul]
    refine Finset.sum_congr rfl ?_
    intro i _
    ring
  rw [Finset.sum_congr rfl fun j _ => hterm j, Finset.sum_comm]
  refine Finset.sum_congr rfl ?_
  intro i _
  rw [← Finset.mul_sum, ← hx i]
  rfl

end Combines

/-! ## Tableaux made of combinations -/

/-- Every row is a combination of the first rows, and so is what was taken away from the costs that were loaded. -/
structure Derived (first : Tableau F L n) (loaded : Option (Fin L.columns → F)) (t : Tableau F L m) : Prop where
  entry : ∀ i, Combines first (t.entry i)
  paid : ∀ c, loaded = some c → Combines first fun j => c j - t.cost j

/-- What the basis pays is a combination of rows. -/
theorem Combines.of_pricedBy {first : Tableau F L n} {t : Tableau F L m} (ht : ∀ i, Combines first (t.entry i))
    {c : Fin L.columns → F} (hp : t.PricedBy c) : Combines first fun j => c j - t.cost j := by
  have hpaid : (fun j => c j - t.cost j) = fun j => ∑ i, c (t.basic i) * t.entry i j := by
    funext j
    rw [hp j]
    ring
  rw [hpaid]
  exact Combines.sum ht _

/-- The first tableau is derived from itself. -/
theorem Canonical.derived {first : Tableau F L n} (h : first.Canonical) : Derived first none first where
  entry := h.combines_entry
  paid c hc := by cases hc

variable [LinearOrder F]

/-- With the artificial objective, the prices take it from the rows that start with an artificial variable. -/
theorem Fresh.derived_loadArtificial {first : Tableau F L n} (h : first.Fresh) :
    Derived first (some (artificialCost : Line F L.columns).cell) first.loadArtificial where
  entry := h.canonical.combines_entry
  paid c hc := by
    cases hc
    exact .of_pricedBy (t := first.loadArtificial) h.canonical.combines_entry
      (pricedBy_loadArtificial h.artificial_iff)

namespace Derived

variable {first : Tableau F L n} {loaded : Option (Fin L.columns → F)} {t : Tableau F L m}

/-- Loading the objective of the program leaves the rows as they are and is priced by the basis. -/
theorem loadCost (h : Derived first loaded t) (hc : t.Canonical) (direction : Direction)
    (cost : Vector F L.decision) :
    Derived first (some (decisionCost direction cost).cell) (t.loadCost direction cost) where
  entry := h.entry
  paid c hloaded := by
    cases hloaded
    exact .of_pricedBy (t := t.loadCost direction cost) h.entry (hc.pricedBy_loadCost direction cost)

/-- A pivot divides one row and takes multiples of it away from the others and from the costs. -/
theorem pivot (h : Derived first loaded t) (eps : F) {j : Fin L.columns} {i : Fin m} (hij : t.entry i j ≠ 0) :
    Derived first loaded (t.pivot eps j i) where
  entry r := by
    by_cases hr : r = i
    · have hrow : (t.pivot eps j i).entry r = fun k => t.entry i k / t.entry i j := by
        funext k
        rw [hr, t.entry_pivot_self eps hij]
      rw [hrow]
      exact (h.entry i).divide _
    · have hrow : (t.pivot eps j i).entry r =
          fun k => t.entry r k - t.entry r j * (t.entry i k / t.entry i j) := by
        funext k
        rw [t.entry_pivot_of_ne eps hij hr]
      rw [hrow]
      exact (h.entry r).subtract ((h.entry i).divide _) _
  paid c hc := by
    have hcost : (fun k => c k - (t.pivot eps j i).cost k) =
        fun k => c k - t.cost k - -t.cost j * (t.entry i k / t.entry i j) := by
      funext k
      rw [t.cost_pivot eps hij]
      ring
    rw [hcost]
    exact (h.paid c hc).subtract ((h.entry i).divide _) _

theorem clearLevel (h : Derived first loaded t) (i : Fin m) : Derived first loaded (t.clearLevel i) where
  entry r := by
    have hrow : (t.clearLevel i).entry r = t.entry r := funext fun k => entry_clearLevel t i r k
    rw [hrow]
    exact h.entry r
  paid := h.paid

omit [LinearOrder F] in
/-- The rows that stay are the combinations they were. -/
theorem removeRows (h : Derived first loaded t) (removed : List (Fin m)) :
    Derived first loaded (t.removeRows removed) where
  entry k := by
    have hrow : (t.removeRows removed).entry k = t.entry ((survivors removed).get k) := by
      funext j
      rw [Tableau.entry, row_removeRows]
      rfl
    rw [hrow]
    exact h.entry _
  paid := h.paid

end Derived

/-- Whatever is done to it, a tableau is made of combinations of the first rows. -/
theorem LeadsTo.derived {first : Tableau F L L.rows} (hfirst : first.Fresh) {b : Books F L} {s : Snapshot F L}
    (h : first.LeadsTo b s) : Derived first b.loaded s.tableau := by
  induction h with
  | start => exact hfirst.canonical.derived
  | loadArtificial => exact hfirst.derived_loadArtificial
  | loadCost before direction cost ih => exact ih.loadCost (before.agrees hfirst).canonical direction cost
  | pivot _ eps hij ih => exact ih.pivot eps hij
  | clearLevel _ i ih => exact ih.clearLevel i
  | removeRows _ _ ih => exact ih.removeRows _

/-! ## A bound from prices -/

variable [IsStrictOrderedRing F]

/-- If no relative cost is far below zero but in columns that stay at zero, no point costs much less than the prices
    of the first rows say. -/
theorem Derived.prices_le_cost {first : Tableau F L n} {loaded : Option (Fin L.columns → F)} {t : Tableau F L m}
    (h : Derived first loaded t) {c : Fin L.columns → F} (hc : loaded = some c) {eps : F}
    {x : Fin L.columns → F} (hx : first.Holds x) (h0 : ∀ j, 0 ≤ x j) (hcost : ∀ j, -eps ≤ t.cost j ∨ x j = 0) :
    ∑ i, (c (first.basic i) - t.cost (first.basic i)) * first.level i - eps * ∑ j, x j ≤ ∑ j, c j * x j := by
  have hpaid := (h.paid c hc).sum_mul hx
  have hterm : ∀ j, (c j - t.cost j) * x j - eps * x j ≤ c j * x j := by
    intro j
    rcases hcost j with hj | hj
    · have hprod := mul_le_mul_of_nonneg_right hj (h0 j)
      linarith
    · rw [hj]
      linarith
  calc ∑ i, (c (first.basic i) - t.cost (first.basic i)) * first.level i - eps * ∑ j, x j
      = ∑ j, ((c j - t.cost j) * x j - eps * x j) := by
        rw [← hpaid, Finset.mul_sum, Finset.sum_sub_distrib]
    _ ≤ ∑ j, c j * x j := Finset.sum_le_sum fun j _ => hterm j

/-! ## Runs that find an optimum -/

section Run

variable {first : Tableau F L L.rows} {options : Options F} {direction : Direction} {cost : Vector F L.decision}

/-- A first phase that succeeds leads to its last tableau. -/
theorem exists_leadsTo_of_findFeasible (h0 : 0 < options.eps) {x : Vector F L.columns} {basis : FeasibleBasis F L}
    (hf : (first.findFeasible options x).result = .ok (.feasible basis)) :
    ∃ b, first.LeadsTo b ⟨_, basis.full⟩ := by
  obtain ⟨l, last, -, htrail, hlast⟩ := first.trail_findFeasible options x
  have hkeeps := htrail.keeps (I := fun s => ∃ b, first.LeadsTo b s) ?_ ⟨_, .loadArtificial⟩
  · have hend := hkeeps last htrail.last_mem
    rw [← hlast _ hf] at hend
    exact hend
  · intro a s ha hstep
    refine of_stepsInOne (I := fun s => ∃ b, first.LeadsTo b s) h0 ?_ ?_ ha hstep
    · rintro m t j i hij ⟨b, hb⟩
      exact ⟨_, hb.pivot options.eps hij⟩
    · rintro m t i ⟨b, hb⟩
      exact ⟨_, hb.clearLevel i⟩

/-- Operations lead from `first` to the tableau, and `c` are the costs that were loaded last. -/
def LeadsWith (first : Tableau F L L.rows) (c : Fin L.columns → F) (s : Snapshot F L) : Prop :=
  ∃ b, first.LeadsTo b s ∧ b.loaded = some c

omit [IsStrictOrderedRing F] in
/-- A pivot does not change which costs are loaded. -/
theorem LeadsWith.pivot {c : Fin L.columns → F} {t : Tableau F L m} (h : first.LeadsWith c ⟨m, t⟩) (eps : F)
    {j : Fin L.columns} {i : Fin m} (hij : t.entry i j ≠ 0) : first.LeadsWith c ⟨m, t.pivot eps j i⟩ := by
  obtain ⟨b, hb, hloaded⟩ := h
  exact ⟨_, hb.pivot eps hij, hloaded⟩

variable {o : Outcome F L} {solution : Solution F}

/-- A run that finds an optimum leads to a tableau in which the cost is loaded, artificial columns are shut out, and no
    column is profitable. -/
theorem leadsWith_of_optimal (hfirst : first.Fresh) (h0 : 0 < options.eps)
    (ho : (first.runPhases options direction cost).result = .ok o) (hv : o.verdict = .optimal solution) :
    first.LeadsWith (decisionCost direction cost).cell o.final ∧ o.final.tableau.Purged ∧
      o.final.tableau.profitable options.eps = [] := by
  obtain ⟨basis, d, hf, hd, hs, hfinal⟩ := runPhases_eq_optimal ho hv
  have hclean := clean_of_findFeasible hf
  have heligible : ∀ j, basis.tableau.isEligible j = true := fun j =>
    (isEligible_of_findFeasible hf j).trans (hfirst.eligible j)
  -- the second phase starts after the redundant rows are removed and the cost is loaded
  obtain ⟨b, hb⟩ := exists_leadsTo_of_findFeasible h0 hf
  have hstart := (hb.removeRows hclean.nodup).loadCost direction cost
  have hloaded := Purged.loadCost hclean.not_artificial heligible direction cost
  -- and every pivot keeps both
  obtain ⟨⟨hleads, hpurged⟩, hend, -⟩ := descend_induct
    (I := fun t => first.LeadsWith (decisionCost direction cost).cell ⟨_, t⟩ ∧ t.Purged)
    (fun t mode j i ht hc => ⟨ht.1.pivot options.eps (hc.entry_pos h0).ne', ht.2.pivot hc⟩)
    _ _ _ _ _ ⟨⟨_, hstart, rfl⟩, hloaded⟩ hd
  rw [Descent.Ended, hs] at hend
  rw [hfinal]
  exact ⟨hleads, hpurged, hend⟩

/-- Where no column is profitable, no relative cost is below the tolerance but in columns that are shut out. -/
theorem Purged.neg_eps_le_cost {t : Tableau F L m} (h : t.Purged) (hp : t.Priced) {eps : F} (h0 : 0 < eps)
    (hend : t.profitable eps = []) {j : Fin L.columns} (hj : L.isArtificial j = false) : -eps ≤ t.cost j := by
  rcases t.basic_or_not j with ⟨i, rfl⟩ | hb
  · rw [hp i]
    exact neg_nonpos.2 h0.le
  · refine not_lt.1 ?_
    intro hlt
    have heligible : t.isEligible j = true := by
      refine Bool.of_not_eq_false ?_
      intro hshut
      rw [(h.eligible_iff j).1 hshut] at hj
      cases hj
    have hmem := mem_profitable.2 ⟨mem_candidates.2 ⟨heligible, hb⟩, hlt⟩
    rw [hend] at hmem
    cases hmem

/-- **Multipliers and prices.**  In every tableau that is led to from accepted rows, the columns of the first basis
    hold the multipliers with which its rows are made of the given ones; and once costs `c` were loaded, its relative
    costs are these costs less the given rows at the prices `c - d` that it has in these columns.  Where an optimum is
    found, no relative cost but those of artificial variables is below zero by more than the tolerance, however large
    it is, and so the prices bound the cost of every point from below. -/
theorem multipliers_and_prices {rows : List (List F)} {levels : List F} (hfirst : ofRows L rows levels = .ok first) :
    ((∀ i j, first.entry i j = (rows.getD i []).getD j 0) ∧ (∀ i, first.level i = levels.getD i 0) ∧
      ∀ i, first.basic i = L.basisColumn i) ∧
    (∀ (b : Books F L) (s : Snapshot F L), first.LeadsTo b s →
      (∀ k j, s.tableau.entry k j = ∑ i, s.tableau.entry k (first.basic i) * first.entry i j) ∧
      ∀ c, b.loaded = some c → ∀ j, s.tableau.cost j =
        c j - ∑ i, (c (first.basic i) - s.tableau.cost (first.basic i)) * first.entry i j) ∧
    ∀ (options : Options F) (direction : Direction) (cost : Vector F L.decision) (o : Outcome F L)
      (solution : Solution F), 0 < options.eps → (first.solve options direction cost.toList).result = .ok o →
      o.verdict = .optimal solution →
      (∃ b, first.LeadsTo b o.final ∧ b.loaded = some (decisionCost direction cost).cell) ∧
      (∀ j : Fin L.columns, L.isArtificial j = false → -options.eps ≤ o.final.tableau.cost j) ∧
      ∀ x : Fin L.columns → F, (∀ j, 0 ≤ x j) → (∀ i, ∑ j, first.entry i j * x j = first.level i) →
        (∀ j : Fin L.columns, L.isArtificial j = true → x j = 0) →
        ∑ i, ((decisionCost direction cost).cell (first.basic i) - o.final.tableau.cost (first.basic i)) *
            first.level i - options.eps * ∑ j, x j ≤
          ∑ j, (decisionCost direction cost).cell j * x j := by
  have hfresh := Fresh.of_ofRows hfirst
  refine ⟨?_, fun b s hs => ?_, ?_⟩
  · obtain ⟨-, rfl⟩ := ofRows_eq_ok_iff.1 hfirst
    exact ⟨entry_fill rows levels, level_fill rows levels, basic_fill rows levels⟩
  · have hderived := hs.derived hfresh
    refine ⟨hderived.entry, fun c hc j => ?_⟩
    rw [← hderived.paid c hc j]
    ring
  · intro options direction cost o solution h0 ho hv
    rw [result_solve_toList first direction cost h0] at ho
    obtain ⟨⟨b, hleads, hloaded⟩, hpurged, hend⟩ := leadsWith_of_optimal hfresh h0 ho hv
    have hpriced := (hleads.agrees hfresh).priced (Option.isSome_iff_exists.2 ⟨_, hloaded⟩)
    have hcost : ∀ j : Fin L.columns, L.isArtificial j = false → -options.eps ≤ o.final.tableau.cost j :=
      fun j hj => hpurged.neg_eps_le_cost hpriced h0 hend hj
    refine ⟨⟨b, hleads, hloaded⟩, hcost, fun x hx hholds hzero => ?_⟩
    refine (hleads.derived hfresh).prices_le_cost hloaded hholds hx ?_
    intro j
    cases hj : L.isArtificial j with
    | false => exact Or.inl (hcost j hj)
    | true => exact Or.inr (hzero j hj)

/-- In the equation that is stated twice, the largest value of the first variable is found in a tableau with one row,
    a combination of the two equations.  The prices it shows bound the negated first variable from below,
    for example where both variables are one. -/
theorem multipliers_and_prices_repeated : ∃ (o : Outcome ℚ ⟨2, 0, 0, 2⟩) (solution : Solution ℚ),
    ofRows ⟨2, 0, 0, 2⟩ [[1, 1, 1, 0], [1, 1, 0, 1]] [2, 2] = .ok repeated ∧
    (repeated.solve (⟨1/8, none, .dantzig, 0⟩ : Options ℚ) .maximize [1, 0]).result = .ok o ∧
    o.verdict = .optimal solution ∧ o.final.rows = 1 ∧
    (∀ k j, o.final.tableau.entry k j = ∑ i, o.final.tableau.entry k (repeated.basic i) * repeated.entry i j) ∧
    ∑ i, ((decisionCost .maximize #v[1, 0]).cell (repeated.basic i) - o.final.tableau.cost (repeated.basic i)) *
      repeated.level i - 1/8 * 2 ≤ -1 := by
  obtain ⟨-, hrows, hprices⟩ := multipliers_and_prices ofRows_repeated
  have hend : endsOptimal (repeated.solve (⟨1/8, none, .dantzig, 0⟩ : Options ℚ) .maximize [1, 0]).result
      (fun o _ => o.final.rows == 1) = true := by decide +kernel
  obtain ⟨o, solution, ho, hv, hone⟩ := exists_of_endsOptimal hend
  obtain ⟨⟨b, hleads, -⟩, -, hbound⟩ := hprices _ .maximize #v[1, 0] o solution (by decide +kernel) ho hv
  refine ⟨o, solution, ofRows_repeated, ho, hv, beq_iff_eq.1 hone, (hrows b o.final hleads).1, ?_⟩
  have hpoint := hbound (fun j => if j.val < 2 then 1 else 0) (by decide +kernel) (by decide +kernel)
    (by decide +kernel)
  have hsum : ∑ j : Fin (Layout.mk 2 0 0 2).columns, (if j.val < 2 then (1 : ℚ) else 0) = 2 := by decide +kernel
  have hcost : ∑ j : Fin (Layout.mk 2 0 0 2).columns, (decisionCost .maximize #v[(1 : ℚ), 0]).cell j *
      (if j.val < 2 then 1 else 0) = -1 := by decide +kernel
  rw [hsum, hcost] at hpoint
  exact hpoint

end Run

end Simplex.Tableau
