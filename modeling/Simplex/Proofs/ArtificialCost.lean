/-
  The artificial cost does not fall without end.

  A column enters if its relative cost, which is a sum of entries, is below minus the tolerance; a row leaves if its
  own entry is above the tolerance.  The sum can be large although every entry is small, and then no row leaves.

  1. `error_of_findFeasible`, `error_of_runPhases` — a run that is not stopped at the limit ends with this error only
     where the descent of the first phase finds a column that no row limits (`exists_unbounded_descent`).
  2. `card_artificial_basic_le` — no more rows than there are artificial variables have one in the basis, and only
     these rows count in the relative costs.
  3. `Borderline` — a profitable column has an entry that is not above the tolerance, although so many of its size
     are.  Where there is none, some row limits every profitable column (`PricedBy.exists_lt_entry`).
  4. `Program.solve_ne_unboundedArtificialCost` — so the error is not met unless the first phase reaches such a
     tableau, which takes two artificial variables, and `Program.twice` — a program that meets it.
-/
import Simplex.Proofs.Oversteps
import Simplex.Proofs.Pricing
import Simplex.Proofs.Truncation

namespace Simplex

/-! ## Where the error comes from -/

namespace Tableau

section Source

variable {F E : Type} {L : Layout} {m : Nat} [Scalar F]

/-- Driving out fails only at the limit. -/
theorem error_of_driveOut {eps : F} {limit : Nat} {e : SolveError F E} : ∀ (is : List (Fin m)) (pivots : Nat)
    (t : Tableau F L m), (driveOut eps limit is pivots t).result = .error e →
      ∃ k, e = .pivotLimit .one k
  | [], pivots, t, he => by cases he
  | i :: rest, pivots, t, he => by
    cases h : t.replacement? eps i with
    | none =>
      rw [result_driveOut_of_none h] at he
      exact error_of_driveOut rest pivots t (error_of_map he)
    | some j =>
      by_cases hlimit : limit ≤ pivots
      · rw [result_driveOut_of_limit h hlimit] at he
        cases he
        exact ⟨pivots, rfl⟩
      · rw [result_driveOut_of_some h hlimit] at he
        exact error_of_driveOut rest _ _ he

variable [Tolerance F E] {options : Options E} {x : Vector F L.columns} {t : Tableau F L L.rows}

theorem error_of_expelArtificials {pivots : Nat} {e : SolveError F E}
    (he : (t.expelArtificials options pivots).result = .error e) : ∃ k, e = .pivotLimit .one k := by
  rw [result_expelArtificials] at he
  exact error_of_driveOut _ _ _ (error_of_map he)

/-- The first phase fails at the limit, or where its descent finds a column that no row limits. -/
theorem error_of_findFeasible {e : SolveError F E} (he : (t.findFeasible options x).result = .error e) :
    (∃ k, e = .pivotLimit .one k) ∨ e = .unboundedArtificialCost ∧
      ∃ d j, (t.loadArtificial.descend (E := E) .one (Tolerance.read options.eps) options.limit 0
        options.strategy x).result = .ok d ∧ d.status = .unbounded j := by
  rw [result_findFeasible_eq] at he
  rcases error_of_bind he with hd | ⟨d, hd, hrest⟩
  · exact Or.inl ⟨_, error_of_descend _ _ _ _ _ hd⟩
  · cases hs : d.status with
    | unbounded j =>
      simp only [hs] at hrest
      cases hrest
      exact Or.inr ⟨rfl, d, j, hd, hs⟩
    | optimal =>
      simp only [hs] at hrest
      split at hrest
      · cases hrest
      · exact Or.inl (error_of_expelArtificials (error_of_map hrest))

/-- The error comes from a descent that finds a column without a limit. -/
theorem exists_unbounded_descent (h : (t.findFeasible options x).result = .error .unboundedArtificialCost) :
    ∃ d j, (t.loadArtificial.descend (E := E) .one (Tolerance.read options.eps) options.limit 0
      options.strategy x).result = .ok d ∧ d.status = .unbounded j := by
  rcases error_of_findFeasible h with ⟨k, hk⟩ | ⟨-, hend⟩
  · cases hk
  · exact hend

/-- Both phases fail at the limit, or with the error of the first one. -/
theorem error_of_runPhases {direction : Direction} {cost : Vector F L.decision} {e : SolveError F E}
    (he : (t.runPhases options direction cost).result = .error e) :
    (∃ phase k, e = .pivotLimit phase k) ∨ e = .unboundedArtificialCost ∧
      (t.findFeasible options (Vector.replicate _ 0)).result = .error .unboundedArtificialCost := by
  rw [result_runPhases_eq] at he
  rcases error_of_bind he with hf | ⟨f, hf, hrest⟩
  · rcases error_of_findFeasible hf with ⟨k, hk⟩ | ⟨rfl, -⟩
    · exact Or.inl ⟨.one, k, hk⟩
    · exact Or.inr ⟨rfl, hf⟩
  · cases f with
    | infeasible final pivots => cases hrest
    | feasible basis =>
      simp only [result_improve_eq] at hrest
      exact Or.inl ⟨.two, _, error_of_descend _ _ _ _ _ (error_of_map hrest)⟩

/-- Both phases end with the error only if the first one does. -/
theorem findFeasible_eq_of_runPhases {direction : Direction} {cost : Vector F L.decision}
    (h : (t.runPhases options direction cost).result = .error .unboundedArtificialCost) :
    (t.findFeasible options (Vector.replicate _ 0)).result = .error .unboundedArtificialCost := by
  rcases error_of_runPhases h with ⟨phase, k, hk⟩ | ⟨-, hf⟩
  · cases hk
  · exact hf

end Source

/-! ## Profitable columns -/

variable {F : Type} [Field F] [LinearOrder F] {L : Layout} {m : Nat} {t : Tableau F L m}

omit [LinearOrder F] in
/-- No more rows than there are artificial variables have one in the basis. -/
theorem Canonical.card_artificial_basic_le (h : t.Canonical) :
    (Finset.univ.filter fun i => L.isArtificial (t.basic i) = true).card ≤ L.artificials := by
  rw [← Finset.card_range L.artificials]
  have hkind : ∀ {i}, i ∈ Finset.univ.filter (fun i => L.isArtificial (t.basic i) = true) →
      L.kind (t.basic i) = .artificial := by
    intro i hi
    exact beq_iff_eq.1 (Finset.mem_filter.1 hi).2
  refine Finset.card_le_card_of_injOn (fun i => L.place (t.basic i)) ?_ ?_
  · intro i hi
    have hlt := L.place_lt (t.basic i).isLt
    rw [hkind hi] at hlt
    exact Finset.mem_coe.2 (Finset.mem_range.2 hlt)
  · -- a column is the start of its kind plus its place
    intro i hi k hk hik
    have hplace : L.place (t.basic i) = L.place (t.basic k) := hik
    have hi' := L.startOf_add_place (t.basic i)
    have hk' := L.startOf_add_place (t.basic k)
    rw [hkind hi, hplace] at hi'
    rw [hkind hk] at hk'
    exact h.basic_injective (Fin.ext (hi'.symm.trans hk'))

/-- A profitable column has an entry, in a row with an artificial basic variable, that is not above the tolerance,
    although as many entries of that size as there are artificial variables are. -/
def Borderline (t : Tableau F L m) (eps : F) : Prop :=
  ∃ j ∈ t.profitable eps, ∃ i, L.isArtificial (t.basic i) = true ∧
    t.entry i j ≤ eps ∧ eps < L.artificials * t.entry i j

instance (t : Tableau F L m) (eps : F) : Decidable (t.Borderline eps) :=
  inferInstanceAs (Decidable (∃ j ∈ t.profitable eps, ∃ i, L.isArtificial (t.basic i) = true ∧
    t.entry i j ≤ eps ∧ eps < L.artificials * t.entry i j))

variable [IsStrictOrderedRing F] {eps : F}

theorem artificialCost_nonneg (j : Fin L.columns) : 0 ≤ (artificialCost : Line F L.columns).cell j := by
  rw [cell_artificialCost]
  split
  · exact zero_le_one
  · exact le_refl 0

omit [IsStrictOrderedRing F] in
/-- With at most one artificial variable nothing is borderline. -/
theorem not_borderline_of_artificials_le_one (h0 : 0 < eps) (h : L.artificials ≤ 1) : ¬ t.Borderline eps := by
  rintro ⟨j, -, i, -, hle, hlt⟩
  rcases Nat.le_one_iff_eq_zero_or_eq_one.1 h with hzero | hone
  · rw [hzero, Nat.cast_zero, zero_mul] at hlt
    exact absurd hlt (not_lt.2 h0.le)
  · rw [hone, Nat.cast_one, one_mul] at hlt
    exact absurd hlt (not_lt.2 hle)

/-- Entries that are small enough for so many of them add up to no more than the tolerance. -/
theorem Canonical.sum_artificial_le (hc : t.Canonical) (h0 : 0 < eps) {j : Fin L.columns}
    (hsmall : ∀ i, L.isArtificial (t.basic i) = true → L.artificials * t.entry i j ≤ eps) :
    ∑ i, (artificialCost : Line F L.columns).cell (t.basic i) * t.entry i j ≤ eps := by
  have hsum : ∑ i, (artificialCost : Line F L.columns).cell (t.basic i) * t.entry i j =
      ∑ i with L.isArtificial (t.basic i) = true, t.entry i j := by
    simp only [cell_artificialCost, ite_mul, one_mul, zero_mul]
    rw [Finset.sum_filter]
  rw [hsum]
  have hcard := hc.card_artificial_basic_le
  rcases Nat.eq_zero_or_pos L.artificials with hzero | hpos
  · have hempty : (Finset.univ.filter fun i => L.isArtificial (t.basic i) = true) = ∅ :=
      Finset.card_eq_zero.1 (Nat.le_zero.1 (hzero ▸ hcard))
    rw [hempty, Finset.sum_empty]
    exact h0.le
  · have hposF : (0 : F) < L.artificials := Nat.cast_pos.2 hpos
    refine le_of_mul_le_mul_left ?_ hposF
    calc (L.artificials : F) * ∑ i with L.isArtificial (t.basic i) = true, t.entry i j
        = ∑ i with L.isArtificial (t.basic i) = true, L.artificials * t.entry i j := Finset.mul_sum ..
      _ ≤ (Finset.univ.filter fun i => L.isArtificial (t.basic i) = true).card • eps :=
          Finset.sum_le_card_nsmul _ _ _ fun i hi => hsmall i (Finset.mem_filter.1 hi).2
      _ ≤ L.artificials • eps := nsmul_le_nsmul_left h0.le hcard
      _ = L.artificials * eps := nsmul_eq_mul ..

/-- Where nothing is borderline, some row limits every profitable column. -/
theorem PricedBy.exists_lt_entry (hp : t.PricedBy (artificialCost : Line F L.columns).cell)
    (hc : t.Canonical) (h0 : 0 < eps) (hclear : ¬ t.Borderline eps) {j : Fin L.columns}
    (hj : j ∈ t.profitable eps) : ∃ i, eps < t.entry i j := by
  by_contra hno
  have hle : ∀ i, t.entry i j ≤ eps := fun i => not_lt.1 fun hlt => hno ⟨i, hlt⟩
  have hsum := hc.sum_artificial_le h0 fun i hi =>
    not_lt.1 fun hlt => hclear ⟨j, hj, i, hi, hle i, hlt⟩
  have hcost := (mem_profitable.1 hj).2
  rw [hp j] at hcost
  have hprice := artificialCost_nonneg (F := F) j
  linarith

end Tableau

namespace Program

variable {F : Type} [Field F] [LinearOrder F] [IsStrictOrderedRing F]

/-- **The artificial cost is bounded.**  Whatever the positive tolerance, the rule and the limit, an accepted program
    never ends with the error that it is not, and in the first phase some row limits every profitable column,
    provided that none of the tableaux reached there is borderline.  With at most one artificial variable there is
    nothing to be provided. -/
theorem solve_ne_unboundedArtificialCost (p : Program F) {t : Tableau F p.layout p.layout.rows}
    (ht : p.tableau.result = .ok t) (options : Options F) (h0 : 0 < options.eps)
    (hclear : 1 < p.layout.artificials →
      ∀ s ∈ (t.findFeasible options (Vector.replicate _ 0)).reached, ¬ s.tableau.Borderline options.eps) :
    (p.solve options).result ≠ .error .unboundedArtificialCost ∧
      ∀ s ∈ (t.findFeasible options (Vector.replicate _ 0)).reached, ∀ j ∈ s.tableau.profitable options.eps,
        ∃ i, options.eps < s.tableau.entry i j := by
  have hlimit : ∀ s ∈ (t.findFeasible options (Vector.replicate _ 0)).reached, ∀ j ∈ s.tableau.profitable options.eps,
      ∃ i, options.eps < s.tableau.entry i j := by
    intro s hs j hj
    obtain ⟨hc, hp⟩ := (fresh ht).pricedBy_of_findFeasible h0 _ s hs
    refine hp.exists_lt_entry hc h0 ?_ hj
    rcases Nat.lt_or_ge 1 p.layout.artificials with hmany | hfew
    · exact hclear hmany s hs
    · exact Tableau.not_borderline_of_artificials_le_one h0 hfew
  refine ⟨?_, hlimit⟩
  intro herr
  rw [result_solve ht h0] at herr
  obtain ⟨d, j, hd, hs⟩ := Tableau.exists_unbounded_descent (Tableau.findFeasible_eq_of_runPhases herr)
  -- the descent ended in a tableau that was reached, with a profitable column and no row to limit it
  have hend := Tableau.ended_of_descend hd
  rw [Descent.Ended, hs] at hend
  obtain ⟨i, hi⟩ := hlimit _ (Tableau.mem_reached_findFeasible hd) j hend.1
  exact hend.2 i hi

/-- One equation, stated twice. -/
def twice (a : ℚ) : Program ℚ where
  direction := .minimize
  cost := [1]
  constraints := [⟨[a], .eq, a⟩, ⟨[a], .eq, a⟩]

/-- An equation that is not small does not meet the error, even twice. -/
theorem solve_ne_unboundedArtificialCost_twice : ∃ t, (twice 1).tableau.result = .ok t ∧
    (∀ s ∈ (t.findFeasible standardExact (Vector.replicate _ 0)).reached, ¬ s.tableau.Borderline standardExact.eps) ∧
    ((twice 1).solve standardExact).result ≠ .error .unboundedArtificialCost ∧
    ∀ s ∈ (t.findFeasible standardExact (Vector.replicate _ 0)).reached, ∀ j ∈ s.tableau.profitable standardExact.eps,
      ∃ i, standardExact.eps < s.tableau.entry i j := by
  obtain ⟨t, ht⟩ := exists_tableau_of_isOk (p := twice 1) (by decide +kernel)
  have hclear : ∀ s ∈ (t.findFeasible standardExact (Vector.replicate _ 0)).reached,
      ¬ s.tableau.Borderline standardExact.eps := by
    rw [eq_fill ht]
    decide +kernel
  exact ⟨t, ht, hclear, solve_ne_unboundedArtificialCost (twice 1) ht standardExact (by decide +kernel)
    fun _ => hclear⟩

/-- An equation with coefficients below a billionth, stated twice: together the two rows make the variable worth
    entering, but neither limits it. -/
theorem solve_eq_unboundedArtificialCost_twice : (twice (1 / 2 ^ 30)).tableau.result.isOk = true ∧
    0 < standardExact.eps ∧
    ((twice (1 / 2 ^ 30)).solve standardExact).result = .error .unboundedArtificialCost := by
  refine ⟨by decide +kernel, by decide +kernel, ?_⟩
  have hend : (match ((twice (1 / 2 ^ 30)).solve standardExact).result with
      | .error .unboundedArtificialCost => true
      | _ => false) = true := by decide +kernel
  split at hend
  · assumption
  · cases hend

end Program

end Simplex
