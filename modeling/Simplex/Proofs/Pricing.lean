/-
  Relative costs are plain costs less what the basis pays.

  1. `PricedBy c` — the relative cost of a column is its plain cost, less the costs `c` of the basic columns times
     its entries; and `basicCost c` — what the basic solution costs.
  2. `sum_basic_pivot` — a pivot exchanges one basic column; the sums over the basis that pay for a column, or for
     the levels, change by the relative cost of the entering column.  So a pivot keeps `PricedBy`, whatever the
     tolerance (`PricedBy.pivot`).
  3. `pricedBy_loadArtificial`, `Canonical.pricedBy_loadCost` — both loads establish it.
  4. `of_stepsInOne`, `Fresh.pricedBy_of_findFeasible` — all tableaux of a phase stay solved for their basis and
     priced by what was loaded, whatever the tolerance.
-/
import Mathlib.Algebra.BigOperators.Fin
import Simplex.Proofs.Phases
import Simplex.Proofs.Reached

namespace Simplex.Tableau

variable {F : Type} [Field F] {L : Layout} {m : Nat}

/-! ## What the basis pays -/

/-- Relative costs are the plain costs `c` less the costs of the basic columns times the entries. -/
def PricedBy (t : Tableau F L m) (c : Fin L.columns → F) : Prop :=
  ∀ j, t.cost j = c j - ∑ i, c (t.basic i) * t.entry i j

/-- What the basic solution costs. -/
def basicCost (t : Tableau F L m) (c : Fin L.columns → F) : F := ∑ i, c (t.basic i) * t.level i

/-- The cost of the basic solution, column by column. -/
theorem Canonical.sum_mul_solutionAt {t : Tableau F L m} (h : t.Canonical) (c : Fin L.columns → F) :
    ∑ j, c j * t.solutionAt j = t.basicCost c := by
  refine (Finset.sum_of_injOn t.basic h.basic_injective.injOn (fun _ _ => Finset.mem_coe.2 (Finset.mem_univ _))
    ?_ ?_).symm
  · intro j _ hj
    rcases t.basic_or_not j with ⟨i, hi⟩ | hb
    · exact absurd ⟨i, Finset.mem_coe.2 (Finset.mem_univ i), hi⟩ hj
    · rw [solutionAt_of_not_basic hb, mul_zero]
  · intro i _
    rw [h.solutionAt_basic]

/-! ## A pivot -/

section Pivot

variable [LinearOrder F] {t : Tableau F L m} {c : Fin L.columns → F} {j : Fin L.columns} {i : Fin m}

/-- Let `h` be a column of numbers next to the rows, and `g` what a pivot makes of it.  The sum that the basis pays
    changes by the relative cost of the entering column times the number in the pivot row. -/
theorem PricedBy.sum_basic_pivot (hp : t.PricedBy c) (eps : F) {g h : Fin m → F}
    (hi : h i = t.entry i j * g i) (hr : ∀ r, r ≠ i → g r = h r - t.entry r j * g i) :
    ∑ r, c ((t.pivot eps j i).basic r) * g r = ∑ r, c (t.basic r) * h r + t.cost j * g i := by
  have hrest : ∑ r ∈ Finset.univ.erase i, c ((t.pivot eps j i).basic r) * g r =
      ∑ r ∈ Finset.univ.erase i, (c (t.basic r) * h r - c (t.basic r) * t.entry r j * g i) := by
    refine Finset.sum_congr rfl ?_
    intro r hmem
    have hne := Finset.ne_of_mem_erase hmem
    rw [basic_pivot_of_ne t eps j hne, hr r hne]
    ring
  have hold := Finset.add_sum_erase Finset.univ (fun r => c (t.basic r) * h r) (Finset.mem_univ i)
  have hcol := Finset.add_sum_erase Finset.univ (fun r => c (t.basic r) * t.entry r j)
    (Finset.mem_univ i)
  have hcost := hp j
  rw [← Finset.add_sum_erase Finset.univ _ (Finset.mem_univ i), hrest, basic_pivot_self,
    Finset.sum_sub_distrib, ← Finset.sum_mul, ← hold, hcost, ← hcol, hi]
  ring

theorem PricedBy.pivot (hp : t.PricedBy c) (eps : F) (hij : t.entry i j ≠ 0) :
    (t.pivot eps j i).PricedBy c := by
  intro k
  have hself := t.entry_pivot_self eps hij k
  have hsum := hp.sum_basic_pivot (i := i) (j := j) eps (g := fun r => (t.pivot eps j i).entry r k)
    (h := fun r => t.entry r k) ?_ ?_
  · rw [hsum, t.cost_pivot eps hij, hp k, hself]
    ring
  · rw [hself]
    field_simp
  · intro r hne
    rw [hself]
    exact t.entry_pivot_of_ne eps hij hne k

/-- Setting a level to zero has nothing to do with costs. -/
theorem PricedBy.clearLevel (hp : t.PricedBy c) (i : Fin m) : (t.clearLevel i).PricedBy c := by
  intro j
  simp only [basic_clearLevel, entry_clearLevel]
  exact hp j

end Pivot

/-! ## Loading -/

section Load

variable [LinearOrder F] {t : Tableau F L m}

/-- Taking some rows away takes their entries away. -/
theorem cell_foldl_subtract (t : Tableau F L m) (k : Fin L.columns) :
    ∀ (is : List (Fin m)) (line : Line F L.columns),
      (is.foldl (fun line i => line.subtract 1 (t.row i).line) line).cell k =
        line.cell k - (is.map fun i => t.entry i k).sum
  | [], line => by simp
  | i :: is, line => by
    have hentry : (t.row i).line.cell k = t.entry i k := rfl
    rw [List.foldl_cons, cell_foldl_subtract t k is, Line.cell_subtract, List.map_cons, List.sum_cons, hentry]
    ring

/-- Where the artificial variables are basic in their own rows, the artificial cost is loaded as what it is. -/
theorem pricedBy_loadArtificial (hb : ∀ i, L.isArtificial (t.basic i) = true ↔ L.less ≤ i.val) :
    t.loadArtificial.PricedBy (artificialCost : Line F L.columns).cell := by
  intro j
  have hcell := t.cell_foldl_subtract j (artificialRows L m) artificialCost
  have hrows : ((artificialRows L m).map fun i => t.entry i j).sum =
      ∑ i, (artificialCost : Line F L.columns).cell (t.basic i) * t.entry i j := by
    simp only [cell_artificialCost, ite_mul, one_mul, zero_mul]
    rw [← List.sum_toFinset _ nodup_artificialRows, ← Finset.sum_filter]
    refine Finset.sum_congr (Finset.ext fun i => ?_) fun _ _ => rfl
    rw [List.mem_toFinset, mem_artificialRows, Finset.mem_filter, hb]
    simp
  rw [hrows] at hcell
  exact hcell

/-- Clearing the basic column of one row changes nothing in those of the others. -/
theorem Canonical.cell_eliminate_basic (h : t.Canonical) {i r : Fin m} (hr : r ≠ i)
    (line : Line F L.columns) :
    (line.eliminate (t.basic i) (t.row i).line).cell (t.basic r) = line.cell (t.basic r) := by
  have hrow : (t.row i).line.cell (t.basic r) = 0 := (h i r).trans (if_neg hr.symm)
  rw [Line.cell_eliminate _ (h.cell_basic_self i), hrow]
  ring

theorem Canonical.map_eliminate_basic (h : t.Canonical) {i : Fin m} {is : List (Fin m)} (hi : i ∉ is)
    (line : Line F L.columns) (g : Fin m → F) :
    (is.map fun r => (line.eliminate (t.basic i) (t.row i).line).cell (t.basic r) * g r) =
      is.map fun r => line.cell (t.basic r) * g r := by
  refine List.map_congr_left ?_
  intro r hr
  have hne : r ≠ i := fun e => hi (e ▸ hr)
  rw [h.cell_eliminate_basic hne]

/-- Reducing by some rows takes away, of each, what the line has in its basic column at the start. -/
theorem Canonical.cell_foldl_eliminate_eq (h : t.Canonical) (k : Fin L.columns) :
    ∀ (is : List (Fin m)) (line : Line F L.columns), is.Nodup →
      (is.foldl (fun line i => line.eliminate (t.basic i) (t.row i).line) line).cell k =
        line.cell k - (is.map fun i => line.cell (t.basic i) * t.entry i k).sum
  | [], line, _ => by simp
  | i :: is, line, hnodup => by
    obtain ⟨hi, hrest⟩ := List.nodup_cons.1 hnodup
    have hentry : (t.row i).line.cell k = t.entry i k := rfl
    rw [List.foldl_cons, cell_foldl_eliminate_eq h k is _ hrest, h.map_eliminate_basic hi,
      Line.cell_eliminate _ (h.cell_basic_self i), hentry, List.map_cons, List.sum_cons]
    ring

theorem Canonical.rhs_foldl_eliminate_eq (h : t.Canonical) :
    ∀ (is : List (Fin m)) (line : Line F L.columns), is.Nodup →
      (is.foldl (fun line i => line.eliminate (t.basic i) (t.row i).line) line).rhs =
        line.rhs - (is.map fun i => line.cell (t.basic i) * t.level i).sum
  | [], line, _ => by simp
  | i :: is, line, hnodup => by
    obtain ⟨hi, hrest⟩ := List.nodup_cons.1 hnodup
    have hlevel : (t.row i).line.rhs = t.level i := rfl
    rw [List.foldl_cons, rhs_foldl_eliminate_eq h is _ hrest, h.map_eliminate_basic hi,
      Line.rhs_eliminate, hlevel, List.map_cons, List.sum_cons]
    ring

variable (direction : Direction) (cost : Vector F L.decision)

/-- The cost of a program is loaded as what it is. -/
theorem Canonical.pricedBy_loadCost (h : t.Canonical) :
    (t.loadCost direction cost).PricedBy (decisionCost direction cost).cell := by
  intro j
  show (t.reduce (decisionCost direction cost)).cell j = _
  rw [reduce_eq_foldl, h.cell_foldl_eliminate_eq j _ _ (List.nodup_finRange m), ← Fin.sum_univ_def]
  rfl

/-- The value of the tableau starts as the cost of the basic solution. -/
theorem Canonical.value_loadCost (h : t.Canonical) : (t.loadCost direction cost).value =
    (t.loadCost direction cost).basicCost (decisionCost direction cost).cell := by
  show -(t.reduce (decisionCost direction cost)).rhs = _
  rw [reduce_eq_foldl, h.rhs_foldl_eliminate_eq _ _ (List.nodup_finRange m), ← Fin.sum_univ_def]
  show -(0 - _) = _
  rw [zero_sub, neg_neg]
  rfl

end Load

/-! ## Along a run -/

section Run

variable [LinearOrder F] [IsStrictOrderedRing F] {t : Tableau F L m} {eps : F}

omit [IsStrictOrderedRing F] in
theorem Canonical.clearLevel (h : t.Canonical) (i : Fin m) : (t.clearLevel i).Canonical := by
  intro r k
  rw [basic_clearLevel, entry_clearLevel]
  exact h r k

theorem entry_ne_zero_of_replacement? {i : Fin m} {j : Fin L.columns} (h0 : 0 < eps)
    (h : t.replacement? eps i = some j) : t.entry i j ≠ 0 := by
  have habs : eps < |t.entry i j| := significant_iff.1 (replacement?_eq_some h).2
  exact abs_pos.1 (h0.trans habs)

/-- What pivots and cleared levels keep is kept by every step of a phase, whatever the tolerance. -/
theorem of_stepsInOne {I : Snapshot F L → Prop} (h0 : 0 < eps)
    (hpivot : ∀ {m} (t : Tableau F L m) j i, t.entry i j ≠ 0 → I ⟨m, t⟩ → I ⟨m, t.pivot eps j i⟩)
    (hclear : ∀ {m} (t : Tableau F L m) i, I ⟨m, t⟩ → I ⟨m, t.clearLevel i⟩) {a b : Snapshot F L}
    (ha : I a) (h : a.StepsInOne eps b) : I b := by
  rcases h with hchosen | hexchange
  · cases hchosen with
    | intro hc => exact hpivot _ _ _ (hc.entry_pos h0).ne' ha
  · cases hexchange with
    | @intro m t i j hrep =>
      refine hpivot _ _ _ ?_ (hclear t i ha)
      rw [entry_clearLevel]
      exact entry_ne_zero_of_replacement? h0 hrep

/-- Every step of a phase leaves the tableau solved for its basis and priced by the same costs. -/
theorem canonical_pricedBy_of_stepsInOne {c : Fin L.columns → F} (h0 : 0 < eps) {a b : Snapshot F L}
    (ha : a.tableau.Canonical ∧ a.tableau.PricedBy c) (h : a.StepsInOne eps b) :
    b.tableau.Canonical ∧ b.tableau.PricedBy c := by
  refine of_stepsInOne (I := fun s => s.tableau.Canonical ∧ s.tableau.PricedBy c) h0 ?_ ?_ ha h
  · exact fun t j i hij ht => ⟨ht.1.pivot eps hij, ht.2.pivot eps hij⟩
  · exact fun t i ht => ⟨ht.1.clearLevel i, ht.2.clearLevel i⟩

/-- All tableaux of the first phase are solved for their basis and priced by the artificial cost. -/
theorem Fresh.pricedBy_of_findFeasible {t : Tableau F L L.rows} (h : t.Fresh) {options : Options F}
    (h0 : 0 < options.eps) (x : Vector F L.columns) : ∀ s ∈ (t.findFeasible options x).reached,
      s.tableau.Canonical ∧ s.tableau.PricedBy (artificialCost : Line F L.columns).cell := by
  obtain ⟨l, b, hreached, htrail, -⟩ := t.trail_findFeasible options x
  rw [hreached]
  refine htrail.keeps (fun _ _ ha hab => canonical_pricedBy_of_stepsInOne h0 ha hab) ⟨?_, ?_⟩
  · exact h.canonical
  · exact pricedBy_loadArtificial h.artificial_iff

/-- So the second phase starts from a tableau that is solved for its basis, whatever the tolerance. -/
theorem Fresh.canonical_of_findFeasible {t : Tableau F L L.rows} (h : t.Fresh) {options : Options F}
    (h0 : 0 < options.eps) {x : Vector F L.columns} {basis : FeasibleBasis F L}
    (hf : (t.findFeasible options x).result = .ok (.feasible basis)) : basis.tableau.Canonical := by
  have hall := h.pricedBy_of_findFeasible h0 x
  obtain ⟨l, b, hreached, htrail, hlast⟩ := t.trail_findFeasible options x
  have hb := hall b (by rw [hreached]; exact htrail.last_mem)
  rw [← hlast _ hf] at hb
  exact hb.1.removeRows basis.redundant

end Run

end Simplex.Tableau
