/-
  Rows removed as redundant.

  A row is judged when its turn comes: it is redundant if no column that is not artificial has an entry above the
  tolerance in it.  But all such rows are removed together at the end, and the exchanges made in between, in other
  rows, still change them.  What was below the tolerance is then multiplied by the quotient of two entries that need
  not be.

  1. `entry_exchange_of_ne` — one exchange, and `entry_driveOut` — all of them at once: from a row that is not gone
     through, multiples of the rows with a new basic variable are subtracted, as they are at the end.
  2. `abs_entry_driveOut_le` — so an entry of a redundant row is at most the tolerance times one more than the sum of
     the entries of its column that are left.
  3. `Spills` — an exchange gives a row that was passed over a significant entry.  Where no tableau spills,
     redundant rows stay as they were judged (`driveOut_faint`).
  4. `Program.removed_rows_small` — both for every program, and what becomes of removed rows under small tolerances;
     `Program.ladder` — a program whose first phase removes a row with an entry of one.
-/
import Simplex.Proofs.Oversteps
import Simplex.Proofs.Pricing
import Simplex.Proofs.ZeroLevel

namespace Simplex

/-- Rows in order start with columns in order. -/
theorem Layout.basisColumn_le_basisColumn {L : Layout} {i k : Fin L.rows} (h : i ≤ k) :
    L.basisColumn i ≤ L.basisColumn k := by
  have hval : i.val ≤ k.val := h
  show L.initialColumn i ≤ L.initialColumn k
  simp only [initialColumn, startOf]
  split <;> split <;> omega

namespace Tableau

variable {F E : Type} [Field F] [LinearOrder F] {L : Layout} {m : Nat}

/-! ## What exchanges do to the other rows -/

section Sets

variable {i : Fin m} {rest redundant : List (Fin m)}

theorem toFinset_cons_sdiff_cons (hi : i ∉ rest) :
    (i :: rest).toFinset \ (i :: redundant).toFinset = rest.toFinset \ redundant.toFinset := by
  rw [List.toFinset_cons, List.toFinset_cons, Finset.insert_sdiff_insert,
    Finset.sdiff_insert_of_notMem fun hmem => hi (List.mem_toFinset.1 hmem)]

theorem toFinset_cons_sdiff (hi : i ∉ redundant) :
    (i :: rest).toFinset \ redundant.toFinset = insert i (rest.toFinset \ redundant.toFinset) := by
  rw [List.toFinset_cons, Finset.insert_sdiff_of_notMem _ fun hmem => hi (List.mem_toFinset.1 hmem)]

end Sets

section Entries

variable {t : Tableau F L m} {eps : F} {i : Fin m} {j : Fin L.columns}

/-- One exchange: from any other row, a multiple of the row of the exchange is subtracted, as it is after it. -/
theorem entry_exchange_of_ne (hij : t.entry i j ≠ 0) {k : Fin m} (hk : k ≠ i) (c : Fin L.columns) :
    ((t.clearLevel i).pivot eps j i).entry k c =
      t.entry k c - t.entry k j * ((t.clearLevel i).pivot eps j i).entry i c := by
  have hij' : (t.clearLevel i).entry i j ≠ 0 := by
    rw [entry_clearLevel]
    exact hij
  rw [entry_pivot_of_ne _ eps hij' hk, entry_pivot_self _ eps hij']
  simp only [entry_clearLevel]

variable [IsStrictOrderedRing F]

/-- An exchange solves the tableau for the new basis. -/
theorem Canonical.exchange (h : t.Canonical) (h0 : 0 < eps) (hrep : t.replacement? eps i = some j) :
    ((t.clearLevel i).pivot eps j i).Canonical := by
  refine (h.clearLevel i).pivot eps ?_
  rw [entry_clearLevel]
  exact entry_ne_zero_of_replacement? h0 hrep

/-- What is subtracted from a row that is not gone through: the rows with a new basic variable as they are at the
    end, each as often as the row had an entry in the column of that variable. -/
theorem entry_driveOut (h0 : 0 < eps) {limit pivots : Nat} {is : List (Fin m)} {out : DrivenOut F L m}
    (hnodup : is.Nodup) (hout : (driveOut (E := E) eps limit is pivots t).result = .ok out) :
    ∀ k, k ∉ is → ∀ c, out.tableau.entry k c = t.entry k c -
      ∑ r ∈ is.toFinset \ out.redundant.toFinset, t.entry k (out.tableau.basic r) * out.tableau.entry r c := by
  refine driveOut_induct (motive := fun is _ t out => is.Nodup → ∀ k, k ∉ is → ∀ c, out.tableau.entry k c =
    t.entry k c - ∑ r ∈ is.toFinset \ out.redundant.toFinset,
      t.entry k (out.tableau.basic r) * out.tableau.entry r c) ?_ ?_ ?_ hout hnodup
  · intro pivots t _ k _ c
    simp
  · intro i rest pivots t out _ _ ih hnodup k hk c
    obtain ⟨hi, hrest⟩ := List.nodup_cons.1 hnodup
    obtain ⟨-, hk⟩ := not_or.1 (mt List.mem_cons.2 hk)
    rw [ih hrest k hk c, toFinset_cons_sdiff_cons hi]
  · intro i rest pivots t out j hrep _ hout ih hnodup k hk c
    obtain ⟨hi, hrest⟩ := List.nodup_cons.1 hnodup
    obtain ⟨hki, hk⟩ := not_or.1 (mt List.mem_cons.2 hk)
    have hij := entry_ne_zero_of_replacement? h0 hrep
    have hsweeps := driveOut_vacates hrest hout
    have hbasic : out.tableau.basic i = j := by rw [hsweeps.kept i (Or.inl hi), basic_pivot_self]
    have hred : i ∉ out.redundant := fun hmem => hi (hsweeps.sublist.subset hmem)
    -- the row `i` of the end is the pivot row less the same multiples, so it is subtracted as a whole
    have hpivot := ih hrest i hi c
    have hrow := ih hrest k hk c
    simp only [entry_exchange_of_ne hij hki, sub_mul, Finset.sum_sub_distrib] at hrow
    rw [toFinset_cons_sdiff hred, Finset.sum_insert, hbasic, hrow, hpivot]
    · simp only [mul_assoc, ← Finset.mul_sum]
      ring
    · exact fun hmem => hi (List.mem_toFinset.1 (Finset.mem_sdiff.1 hmem).1)

/-- A row that is faint and not gone through gets no larger entries than the rows it is changed by give it. -/
theorem Faint.abs_entry_driveOut_le (h0 : 0 < eps) {limit pivots : Nat} {is : List (Fin m)} {out : DrivenOut F L m}
    (hnodup : is.Nodup) (hout : (driveOut (E := E) eps limit is pivots t).result = .ok out) {k : Fin m}
    (h : t.Faint eps k) (hk : k ∉ is) {c : Fin L.columns} (hc : L.isArtificial c = false) :
    |out.tableau.entry k c| ≤
      eps * (1 + ∑ r ∈ is.toFinset \ out.redundant.toFinset, |out.tableau.entry r c|) := by
  have hterm : ∀ r ∈ is.toFinset \ out.redundant.toFinset,
      |t.entry k (out.tableau.basic r) * out.tableau.entry r c| ≤ eps * |out.tableau.entry r c| := by
    intro r hr
    obtain ⟨hmem, hred⟩ := Finset.mem_sdiff.1 hr
    rw [List.mem_toFinset] at hmem hred
    rw [abs_mul]
    exact mul_le_mul_of_nonneg_right (h _ ((driveOut_vacates hnodup hout).replaced r hmem hred)) (abs_nonneg _)
  rw [entry_driveOut h0 hnodup hout k hk c]
  calc |t.entry k c - ∑ r ∈ is.toFinset \ out.redundant.toFinset,
        t.entry k (out.tableau.basic r) * out.tableau.entry r c|
      ≤ |t.entry k c| + |∑ r ∈ is.toFinset \ out.redundant.toFinset,
        t.entry k (out.tableau.basic r) * out.tableau.entry r c| := abs_sub _ _
    _ ≤ eps + ∑ r ∈ is.toFinset \ out.redundant.toFinset, eps * |out.tableau.entry r c| :=
        add_le_add (h c hc) ((Finset.abs_sum_le_sum_abs _ _).trans (Finset.sum_le_sum hterm))
    _ = eps * (1 + ∑ r ∈ is.toFinset \ out.redundant.toFinset, |out.tableau.entry r c|) := by
        rw [← Finset.mul_sum, mul_add, mul_one]

/-- An entry of a redundant row is at most the tolerance times one more than the sum of the entries of its column in
    the rows with a new basic variable. -/
theorem abs_entry_driveOut_le (h0 : 0 < eps) {limit pivots : Nat} {is : List (Fin m)} {out : DrivenOut F L m}
    (hnodup : is.Nodup) (hc : t.Canonical) (hart : ∀ i ∈ is, L.isArtificial (t.basic i) = true)
    (hout : (driveOut (E := E) eps limit is pivots t).result = .ok out) :
    ∀ k ∈ out.redundant, ∀ c : Fin L.columns, L.isArtificial c = false → |out.tableau.entry k c| ≤
      eps * (1 + ∑ r ∈ is.toFinset \ out.redundant.toFinset, |out.tableau.entry r c|) := by
  refine driveOut_induct (motive := fun is _ t out => is.Nodup → t.Canonical →
    (∀ i ∈ is, L.isArtificial (t.basic i) = true) → ∀ k ∈ out.redundant, ∀ c : Fin L.columns,
      L.isArtificial c = false → |out.tableau.entry k c| ≤
        eps * (1 + ∑ r ∈ is.toFinset \ out.redundant.toFinset, |out.tableau.entry r c|))
    ?_ ?_ ?_ hout hnodup hc hart
  · intro pivots t _ _ _ k hk
    cases hk
  · intro i rest pivots t out hrep hout ih hnodup hc hart k hk c hcol
    obtain ⟨hi, hrest⟩ := List.nodup_cons.1 hnodup
    obtain ⟨hartI, hartRest⟩ := List.forall_mem_cons.1 hart
    rw [toFinset_cons_sdiff_cons hi]
    rcases List.mem_cons.1 hk with rfl | hk
    · exact (hc.faint_of_replacement?_eq_none h0 hartI hrep).abs_entry_driveOut_le h0 hrest hout hi hcol
    · exact ih hrest hc hartRest k hk c hcol
  · intro i rest pivots t out j hrep _ hout ih hnodup hc hart k hk c hcol
    obtain ⟨hi, hrest⟩ := List.nodup_cons.1 hnodup
    have hartRest : ∀ r ∈ rest, L.isArtificial (((t.clearLevel i).pivot eps j i).basic r) = true := by
      intro r hr
      have hri : r ≠ i := fun heq => hi (heq ▸ hr)
      rw [basic_exchange_of_ne t eps j hri]
      exact hart r (List.mem_cons_of_mem _ hr)
    refine (ih hrest (hc.exchange h0 hrep) hartRest k hk c hcol).trans (mul_le_mul_of_nonneg_left ?_ h0.le)
    -- there is one row more to sum over
    refine add_le_add_right (Finset.sum_le_sum_of_subset_of_nonneg ?_ fun _ _ _ => abs_nonneg _) 1
    rw [List.toFinset_cons]
    exact Finset.sdiff_subset_sdiff (Finset.subset_insert ..) subset_rfl

end Entries

/-! ## Where redundant rows stay as they were judged -/

section Spills

variable {t : Tableau F L m} {eps : F}

/-- An exchange gives a row that was passed over a significant entry: the rows with an artificial variable before the
    one of the exchange are all faint, and after it some of them is not.  Every exchange that is possible counts,
    whether it is made or not. -/
def Spills (t : Tableau F L m) (eps : F) : Prop :=
  ∃ i j, t.replacement? eps i = some j ∧ L.isArtificial (t.basic i) = true ∧
    (∀ k, L.isArtificial (t.basic k) = true → t.basic k < t.basic i → t.Faint eps k) ∧
    ∃ k, L.isArtificial (t.basic k) = true ∧ t.basic k < t.basic i ∧
      ¬ ((t.clearLevel i).pivot eps j i).Faint eps k

instance (t : Tableau F L m) (eps : F) : Decidable (t.Spills eps) :=
  inferInstanceAs (Decidable (∃ i j, t.replacement? eps i = some j ∧ L.isArtificial (t.basic i) = true ∧
    (∀ k, L.isArtificial (t.basic k) = true → t.basic k < t.basic i → t.Faint eps k) ∧
    ∃ k, L.isArtificial (t.basic k) = true ∧ t.basic k < t.basic i ∧
      ¬ ((t.clearLevel i).pivot eps j i).Faint eps k))

/-- The rows `rest` with an artificial variable are still to be gone through, in order; all others were passed over and
    are faint. -/
structure PassedOver (t : Tableau F L m) (eps : F) (rest : List (Fin m)) : Prop where
  ordered : rest.Pairwise fun a b => t.basic a < t.basic b
  artificial : ∀ r ∈ rest, L.isArtificial (t.basic r) = true
  faint : ∀ k, L.isArtificial (t.basic k) = true → k ∉ rest → t.Faint eps k
  before : ∀ k, L.isArtificial (t.basic k) = true → k ∉ rest → ∀ r ∈ rest, t.basic k < t.basic r

namespace PassedOver

variable {i : Fin m} {rest : List (Fin m)}

omit [Field F] [LinearOrder F] in
theorem notMem_of_pairwise (h : (i :: rest).Pairwise fun a b => t.basic a < t.basic b) : i ∉ rest :=
  fun hmem => lt_irrefl _ ((List.pairwise_cons.1 h).1 i hmem)

/-- One more row is passed over. -/
theorem mark (h : t.PassedOver eps (i :: rest)) (hi : t.Faint eps i) : t.PassedOver eps rest where
  ordered := (List.pairwise_cons.1 h.ordered).2
  artificial r hr := h.artificial r (List.mem_cons_of_mem _ hr)
  faint k hk hrest := by
    by_cases hki : k = i
    · rw [hki]
      exact hi
    · exact h.faint k hk (List.not_mem_cons_of_ne_of_not_mem hki hrest)
  before k hk hrest r hr := by
    by_cases hki : k = i
    · rw [hki]
      exact (List.pairwise_cons.1 h.ordered).1 r hr
    · exact h.before k hk (List.not_mem_cons_of_ne_of_not_mem hki hrest) r (List.mem_cons_of_mem _ hr)

/-- One more row gets another basic variable; if the tableau does not spill, the rows passed over stay faint. -/
theorem exchange (h : t.PassedOver eps (i :: rest)) (hspill : ¬ t.Spills eps) {j : Fin L.columns}
    (hrep : t.replacement? eps i = some j) : ((t.clearLevel i).pivot eps j i).PassedOver eps rest := by
  have hi := notMem_of_pairwise h.ordered
  have hsame : ∀ r ∈ rest, ((t.clearLevel i).pivot eps j i).basic r = t.basic r :=
    fun r hr => basic_exchange_of_ne t eps j fun heq => hi (heq ▸ hr)
  -- a row with an artificial variable that is not to be gone through any more was passed over before
  have hold : ∀ k, L.isArtificial (((t.clearLevel i).pivot eps j i).basic k) = true → k ∉ rest →
      ((t.clearLevel i).pivot eps j i).basic k = t.basic k ∧ L.isArtificial (t.basic k) = true ∧
        k ∉ i :: rest := by
    intro k hk hrest
    have hki : k ≠ i := by
      rintro rfl
      rw [basic_pivot_self, (replacement?_eq_some hrep).1] at hk
      cases hk
    rw [basic_exchange_of_ne t eps j hki] at hk ⊢
    exact ⟨rfl, hk, List.not_mem_cons_of_ne_of_not_mem hki hrest⟩
  refine ⟨?_, ?_, ?_, ?_⟩
  · refine (List.pairwise_cons.1 h.ordered).2.imp_of_mem ?_
    intro a b ha hb hab
    rw [hsame a ha, hsame b hb]
    exact hab
  · intro r hr
    rw [hsame r hr]
    exact h.artificial r (List.mem_cons_of_mem _ hr)
  · intro k hk hrest
    obtain ⟨-, hart, hnot⟩ := hold k hk hrest
    by_contra hfar
    refine hspill ⟨i, j, hrep, h.artificial i (List.mem_cons_self ..), ?_, k, hart,
      h.before k hart hnot i (List.mem_cons_self ..), hfar⟩
    intro l hl hlt
    refine h.faint l hl ?_
    intro hmem
    rcases List.mem_cons.1 hmem with rfl | hmem
    · exact lt_irrefl _ hlt
    · exact lt_asymm hlt ((List.pairwise_cons.1 h.ordered).1 l hmem)
  · intro k hk hrest r hr
    obtain ⟨heq, hart, hnot⟩ := hold k hk hrest
    rw [heq, hsame r hr]
    exact h.before k hart hnot r (List.mem_cons_of_mem _ hr)

end PassedOver

variable [IsStrictOrderedRing F]

/-- Where no tableau spills, all rows that keep their artificial variable end up faint. -/
theorem driveOut_faint (h0 : 0 < eps) {limit pivots : Nat} {is : List (Fin m)} {out : DrivenOut F L m}
    (hc : t.Canonical) (h : t.PassedOver eps is)
    (hout : (driveOut (E := E) eps limit is pivots t).result = .ok out)
    (hspill : ∀ s ∈ ⟨m, t⟩ :: (driveOut (E := E) eps limit is pivots t).reached, ¬ s.tableau.Spills eps) :
    ∀ k, L.isArtificial (out.tableau.basic k) = true → out.tableau.Faint eps k := by
  refine driveOut_induct (motive := fun is pivots t out => t.Canonical → t.PassedOver eps is →
    (∀ s ∈ ⟨m, t⟩ :: (driveOut (E := E) eps limit is pivots t).reached, ¬ s.tableau.Spills eps) →
      ∀ k, L.isArtificial (out.tableau.basic k) = true → out.tableau.Faint eps k) ?_ ?_ ?_ hout hc h hspill
  · intro pivots t _ h _ k hk
    exact h.faint k hk List.not_mem_nil
  · intro i rest pivots t out hrep _ ih hc h hspill
    rw [reached_driveOut_of_none hrep] at hspill
    refine ih hc (h.mark ?_) hspill
    exact hc.faint_of_replacement?_eq_none h0 (h.artificial i (List.mem_cons_self ..)) hrep
  · intro i rest pivots t out j hrep hlimit _ ih hc h hspill
    rw [reached_driveOut_of_some hrep hlimit] at hspill
    obtain ⟨hhere, hlater⟩ := List.forall_mem_cons.1 hspill
    exact ih (hc.exchange h0 hrep) (h.exchange hhere hrep) hlater

omit [IsStrictOrderedRing F] in
/-- Before the first exchange no row was passed over. -/
theorem Canonical.passedOver_artificialBasics (hc : t.Canonical) (eps : F) :
    t.PassedOver eps t.artificialBasics where
  ordered := pairwise_lt_mergeSort_of_injective hc.basic_injective ((List.nodup_finRange m).filter _)
  artificial _ hr := mem_artificialBasics.1 hr
  faint _ hk hnot := absurd (mem_artificialBasics.2 hk) hnot
  before _ hk hnot := absurd (mem_artificialBasics.2 hk) hnot

end Spills

/-! ## The first phase -/

section FindFeasible

variable [IsStrictOrderedRing F] {t : Tableau F L L.rows} {options : Options F} {x : Vector F L.columns}
  {basis : FeasibleBasis F L}

/-- A feasible basis comes from a tableau that was reached and is solved for its basis, by driving artificial variables
    out of it. -/
theorem Fresh.exists_driveOut_of_findFeasible (h : t.Fresh) (h0 : 0 < options.eps)
    (hf : (t.findFeasible options x).result = .ok (.feasible basis)) : ∃ (u : Tableau F L L.rows) (pivots : Nat)
      (out : DrivenOut F L L.rows), u.Canonical ∧
      (driveOut (E := F) options.eps options.limit u.artificialBasics pivots u).result = .ok out ∧
      out.tableau = basis.full ∧ (∀ i, i ∈ out.redundant ↔ i ∈ basis.redundant) ∧
      ∀ s ∈ ⟨_, u⟩ :: (driveOut (E := F) options.eps options.limit u.artificialBasics pivots u).reached,
        s ∈ (t.findFeasible options x).reached := by
  obtain ⟨d, hd, hs, hv, out, hout, rfl⟩ := findFeasible_eq_feasible hf
  have hmem := mem_reached_findFeasible hd
  have hreached := reached_findFeasible_of_le hd hs hv
  obtain ⟨redundant, hdriven, hsorted⟩ := expelArtificials_eq_ok_iff.1 hout
  refine ⟨d.tableau, d.pivots, _, (h.pricedBy_of_findFeasible h0 x _ hmem).1, hdriven, rfl, fun i => ?_, ?_⟩
  · show i ∈ redundant ↔ i ∈ out.redundant
    rw [hsorted, List.mem_mergeSort]
  intro s hs
  rcases List.mem_cons.1 hs with rfl | hs
  · exact hmem
  · rw [hreached]
    exact List.mem_cons_of_mem _ (List.mem_append_right _ hs)

/-- The bound on the entries of removed rows, at the end of a first phase. -/
theorem Fresh.abs_entry_le_of_findFeasible (h : t.Fresh) (h0 : 0 < options.eps)
    (hf : (t.findFeasible options x).result = .ok (.feasible basis)) {k : Fin L.rows} (hk : k ∈ basis.redundant)
    {j : Fin L.columns} (hj : L.isArtificial j = false) :
    |basis.full.entry k j| ≤ options.eps * (1 + ∑ i with i ∉ basis.redundant, |basis.full.entry i j|) := by
  obtain ⟨u, pivots, out, hc, hout, hfull, hmem, -⟩ := h.exists_driveOut_of_findFeasible h0 hf
  have hle := abs_entry_driveOut_le h0 u.nodup_artificialBasics hc (fun i hi => mem_artificialBasics.1 hi) hout k
    ((hmem k).2 hk) j hj
  rw [hfull] at hle
  refine hle.trans (mul_le_mul_of_nonneg_left ?_ h0.le)
  refine add_le_add_right (Finset.sum_le_sum_of_subset_of_nonneg ?_ fun _ _ _ => abs_nonneg _) 1
  intro i hi
  obtain ⟨-, hred⟩ := Finset.mem_sdiff.1 hi
  rw [List.mem_toFinset, hmem] at hred
  exact Finset.mem_filter.2 ⟨Finset.mem_univ i, hred⟩

/-- Where no tableau reached spills, removed rows are as faint as they were when they were judged. -/
theorem Fresh.faint_of_findFeasible (h : t.Fresh) (h0 : 0 < options.eps)
    (hf : (t.findFeasible options x).result = .ok (.feasible basis))
    (hspill : ∀ s ∈ (t.findFeasible options x).reached, ¬ s.tableau.Spills options.eps) {k : Fin L.rows}
    (hk : k ∈ basis.redundant) : basis.full.Faint options.eps k := by
  obtain ⟨u, pivots, out, hc, hout, hfull, -, hreached⟩ := h.exists_driveOut_of_findFeasible h0 hf
  have hfaint := driveOut_faint h0 hc (hc.passedOver_artificialBasics options.eps) hout fun s hs =>
    hspill s (hreached s hs)
  rw [hfull] at hfaint
  exact hfaint k (((clean_of_findFeasible hf).artificial_iff k).2 hk)

end FindFeasible

end Tableau

namespace Program

variable {F : Type} [Field F] [LinearOrder F]

/-! ## A first phase without a descent -/

section Start

variable {p : Program F} {t : Tableau F p.layout p.layout.rows} (ht : p.tableau.result = .ok t)
include ht

/-- At the start artificial variables come in the order of their rows. -/
theorem artificialBasics_eq : t.artificialBasics = Tableau.artificialRows p.layout p.layout.rows := by
  have hfilter : ((List.finRange p.layout.rows).filter fun i => p.layout.isArtificial (t.basic i)) =
      Tableau.artificialRows p.layout p.layout.rows := by
    refine List.filter_congr fun i _ => ?_
    rw [Bool.eq_iff_iff, (fresh ht).artificial_iff, decide_eq_true_iff]
  rw [Tableau.artificialBasics, hfilter]
  refine List.mergeSort_of_pairwise (((List.pairwise_lt_finRange _).filter _).imp ?_)
  intro i k hik
  rw [eq_fill ht, Tableau.basic_fill, Tableau.basic_fill]
  exact decide_eq_true (Layout.basisColumn_le_basisColumn hik.le)

/-- Where no column is profitable at the start, the first phase only drives artificial variables out. -/
theorem findFeasible_of_profitable_eq_nil {options : Options F} (x : Vector F p.layout.columns)
    (hstay : t.loadArtificial.profitable options.eps = []) (hv : ¬ options.eps < t.loadArtificial.value)
    {out : DrivenOut F p.layout p.layout.rows}
    (hout : (Tableau.driveOut (E := F) options.eps options.limit (Tableau.artificialRows p.layout _) 0
      t.loadArtificial).result = .ok out) (hsorted : out.redundant.Pairwise (· ≤ ·)) :
    (t.findFeasible options x).result =
      .ok (.feasible (out.handOver (t.loadArtificial.writeSolution x))) ∧
    (t.findFeasible options x).reached = ⟨_, t.loadArtificial⟩ :: (Tableau.driveOut (E := F) options.eps options.limit
      (Tableau.artificialRows p.layout _) 0 t.loadArtificial).reached := by
  have hnone : t.loadArtificial.enteringColumn? options.eps options.strategy.mode = none :=
    Tableau.enteringColumn?_eq_none_iff.2 hstay
  have hd : (t.loadArtificial.descend (E := F) .one options.eps options.limit 0 options.strategy x).result =
      .ok ⟨.optimal, t.loadArtificial, t.loadArtificial.writeSolution x, 0⟩ :=
    Tableau.result_descend_of_optimal hnone
  have hrows : t.loadArtificial.artificialBasics = Tableau.artificialRows p.layout p.layout.rows :=
    (artificialBasics_eq ht : t.artificialBasics = _)
  have hsort : (out.redundant.mergeSort fun i k => i ≤ k) = out.redundant :=
    List.mergeSort_of_pairwise (hsorted.imp fun hle => decide_eq_true hle)
  constructor
  · rw [Tableau.result_findFeasible hd rfl, if_neg hv, Tableau.result_expelArtificials, read_exact, hrows, hout]
    simp only [Except.map, hsort]
  · rw [Tableau.reached_findFeasible_of_le hd rfl hv, read_exact, Tableau.reached_descend_of_optimal hnone,
      List.nil_append, hrows]

end Start

/-! ## All programs -/

/-- **Rows removed by the first phase.**  For every program with a tableau: if the tolerance is small enough, every
    removed row is zero in every column that is not artificial.  Under any tolerance above zero, an entry of a removed
    row in such a column is, when the row is removed, at most the tolerance times one more than the sum of the entries
    that are left of the column; and unless the next exchange in some tableau gives a row that was passed over a
    significant entry, it is at most the tolerance. -/
theorem removed_rows_small [IsStrictOrderedRing F] (p : Program F) {t : Tableau F p.layout p.layout.rows}
    (ht : p.tableau.result = .ok t) :
    (∃ bound, 0 < bound ∧ ∀ (options : Options F) x (basis : FeasibleBasis F p.layout), 0 < options.eps →
      options.eps < bound → (t.findFeasible options x).result = .ok (.feasible basis) →
        ∀ k ∈ basis.redundant, basis.full.Vacant k) ∧
    ∀ (options : Options F) x (basis : FeasibleBasis F p.layout), 0 < options.eps →
      (t.findFeasible options x).result = .ok (.feasible basis) → ∀ k ∈ basis.redundant,
        (∀ j : Fin p.layout.columns, p.layout.isArtificial j = false → |basis.full.entry k j| ≤
          options.eps * (1 + ∑ i with i ∉ basis.redundant, |basis.full.entry i j|)) ∧
        ((∀ s ∈ (t.findFeasible options x).reached, ¬ s.tableau.Spills options.eps) →
          basis.full.Faint options.eps k) := by
  have hfresh := fresh ht
  refine ⟨?_, ?_⟩
  · obtain ⟨bound, hpos, hresolved⟩ := p.forSmall_resolvedBy
    refine ⟨bound, hpos, ?_⟩
    intro options x basis h0 hsmall hf
    obtain ⟨hr, -⟩ := hresolved options.eps h0 hsmall t ht
    obtain ⟨d, out, hready, hout, rfl⟩ := hfresh.readyToExpel_of_findFeasible hr h0 hf
    exact (hready.expels_of_expelArtificials hr h0 hout).redundant
  · intro options x basis h0 hf k hk
    exact ⟨fun j hj => hfresh.abs_entry_le_of_findFeasible h0 hf hk hj,
      fun hspill => hfresh.faint_of_findFeasible h0 hf hspill hk⟩

/-- An equation with a coefficient below a billionth, and one of the given scale that is stated twice, with both
    signs. -/
def ladder (scale : ℚ) : Program ℚ where
  direction := .maximize
  cost := [0, 1]
  constraints := [⟨[1 / 2 ^ 30], .eq, 0⟩, ⟨[-1, scale], .eq, 0⟩, ⟨[1, -scale], .eq, 0⟩, ⟨[0, 1], .le, 5⟩]

/-- With a scale of one, the first equation and the last one are removed, and they stay as they were judged: the first
    row gets an entry of `1 / 2 ^ 30` in the second column. -/
theorem removed_rows_small_ladder : ∃ t basis, (ladder 1).tableau.result = .ok t ∧ 0 < standardExact.eps ∧
    (t.findFeasible standardExact (Vector.replicate _ 0)).result = .ok (.feasible basis) ∧
    basis.redundant.map (·.val) = [1, 3] ∧
    basis.full.entry ⟨1, by decide⟩ ⟨1, by decide⟩ = 1 / 2 ^ 30 ∧
    (∀ s ∈ (t.findFeasible standardExact (Vector.replicate _ 0)).reached, ¬ s.tableau.Spills standardExact.eps) ∧
    ∀ k ∈ basis.redundant, basis.full.Faint standardExact.eps k := by
  obtain ⟨t, ht⟩ := exists_tableau_of_isOk (p := ladder 1) (by decide +kernel)
  have h0 : 0 < standardExact.eps := by decide +kernel
  have hend : (match (Tableau.driveOut (E := ℚ) standardExact.eps standardExact.limit
      (Tableau.artificialRows (ladder 1).layout _) 0 t.loadArtificial).result with
      | .ok out => decide (out.redundant = [⟨1, by decide⟩, ⟨3, by decide⟩] ∧
        out.tableau.entry ⟨1, by decide⟩ ⟨1, by decide⟩ = 1 / 2 ^ 30)
      | .error _ => false) = true := by
    rw [eq_fill ht]
    decide +kernel
  have hclear : ∀ s ∈ ⟨_, t.loadArtificial⟩ :: (Tableau.driveOut (E := ℚ) standardExact.eps standardExact.limit
      (Tableau.artificialRows (ladder 1).layout _) 0 t.loadArtificial).reached,
      ¬ s.tableau.Spills standardExact.eps := by
    rw [eq_fill ht]
    decide +kernel
  split at hend
  · rename_i out hout
    obtain ⟨hred, hentry⟩ := of_decide_eq_true hend
    obtain ⟨hf, hreached⟩ := findFeasible_of_profitable_eq_nil ht (Vector.replicate _ 0)
      (by rw [eq_fill ht]; decide +kernel) (by rw [eq_fill ht]; decide +kernel) hout (by rw [hred]; decide)
    rw [← hreached] at hclear
    obtain ⟨-, hremoved⟩ := removed_rows_small (ladder 1) ht
    have hrows : out.redundant.map (·.val) = [1, 3] := by rw [hred]; rfl
    exact ⟨t, _, ht, h0, hf, hrows, hentry, hclear,
      fun k hk => (hremoved standardExact _ _ h0 hf k hk).2 hclear⟩
  · cases hend

/-- With a scale of `2 ^ 30` the first equation is judged to be redundant just the same, but when it is removed it has
    an entry of one: the exchange in the second equation came after. -/
theorem removed_row_significant_ladder : ∃ t basis, (ladder (2 ^ 30)).tableau.result = .ok t ∧
    0 < standardExact.eps ∧ (t.findFeasible standardExact (Vector.replicate _ 0)).result = .ok (.feasible basis) ∧
    ∃ k ∈ basis.redundant, ∃ j : Fin (ladder (2 ^ 30)).layout.columns,
      (ladder (2 ^ 30)).layout.isArtificial j = false ∧ basis.full.entry k j = 1 ∧
      standardExact.eps < |basis.full.entry k j| := by
  obtain ⟨t, ht⟩ := exists_tableau_of_isOk (p := ladder (2 ^ 30)) (by decide +kernel)
  have hend : (match (Tableau.driveOut (E := ℚ) standardExact.eps standardExact.limit
      (Tableau.artificialRows (ladder (2 ^ 30)).layout _) 0 t.loadArtificial).result with
      | .ok out => decide (out.redundant = [⟨1, by decide⟩, ⟨3, by decide⟩] ∧
        out.tableau.entry ⟨1, by decide⟩ ⟨1, by decide⟩ = 1)
      | .error _ => false) = true := by
    rw [eq_fill ht]
    decide +kernel
  split at hend
  · rename_i out hout
    obtain ⟨hred, hentry⟩ := of_decide_eq_true hend
    obtain ⟨hf, -⟩ := findFeasible_of_profitable_eq_nil ht (Vector.replicate _ 0)
      (by rw [eq_fill ht]; decide +kernel) (by rw [eq_fill ht]; decide +kernel) hout (by rw [hred]; decide)
    refine ⟨t, _, ht, by decide +kernel, hf, ⟨1, by decide⟩, ?_, ⟨1, by decide⟩, by decide, hentry, ?_⟩
    · show _ ∈ out.redundant
      rw [hred]
      exact List.mem_cons_self ..
    · show standardExact.eps < |out.tableau.entry _ _|
      rw [hentry]
      decide +kernel
  · cases hend

end Program

end Simplex
