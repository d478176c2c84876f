/-
  The ratio test, and the pivot it leads to.

  1. `Leaves` — what the ratio test looks for: a row with an entry above the tolerance, of least ratio among these,
     and of those with the same ratio the first in the order by which ties are broken.  There is at most one such row,
     and the scan finds it (`leavingRow?_eq_some_iff`).
  2. `solutionWith` — the basic solution with other right-hand sides than the stored ones.  With those that a pivot
     computes, the basic solution after it is the one before it, raised along the entering column
     (`solutionWith_pivot`).
  3. `ratio_test_pivot` — rows the test looked at and rows that only gain end up nonnegative, rows it did not look at
     fall short by no more than the tolerance times the step, and the value falls by the relative cost times the step.
-/
import Simplex.Proofs.Transformation

namespace Simplex.Tableau

/-! ## The row that is looked for -/

section Choice

variable {F : Type} [Field F] [LinearOrder F] {L : Layout} {m : Nat} {t : Tableau F L m} {eps : F} {tie : TieBreak}
  {j : Fin L.columns} {i k : Fin m}

/-- Row `i` comes no later than row `k` in the order by which ties are broken. -/
def NoLater (t : Tableau F L m) : TieBreak → Fin m → Fin m → Prop
  | .lowestRow, i, k => i ≤ k
  | .lowestBasisColumn, i, k => t.basic i ≤ t.basic k

/-- Row `i` has an entry above the tolerance, the least ratio of all rows that have one, and of those with the same
    ratio it comes first. -/
structure Leaves (t : Tableau F L m) (eps : F) (tie : TieBreak) (j : Fin L.columns) (i : Fin m) : Prop where
  lt_entry : eps < t.entry i j
  ratio_le : ∀ r, eps < t.entry r j → t.ratio j i ≤ t.ratio j r
  first : ∀ r, eps < t.entry r j → t.ratio j r = t.ratio j i → t.NoLater tie i r

omit [Field F] [LinearOrder F] in
theorem NoLater.antisymm (hb : Function.Injective t.basic) (hik : t.NoLater tie i k) (hki : t.NoLater tie k i) :
    i = k := by
  cases tie with
  | lowestRow => exact Fin.le_antisymm hik hki
  | lowestBasisColumn => exact hb (Fin.le_antisymm hik hki)

/-- No two rows leave. -/
theorem Leaves.eq (hb : Function.Injective t.basic) (hi : t.Leaves eps tie j i) (hk : t.Leaves eps tie j k) :
    i = k := by
  have hratio : t.ratio j i = t.ratio j k :=
    le_antisymm (hi.ratio_le k hk.lt_entry) (hk.ratio_le i hi.lt_entry)
  exact NoLater.antisymm hb (hi.first k hk.lt_entry hratio.symm) (hk.first i hi.lt_entry hratio)

/-- A row that should leave rather than another one should leave rather than any third, or the third rather than the
    other. -/
theorem leavesBefore_weak (a b c : Fin m) (hac : t.leavesBefore tie j a c = true) :
    t.leavesBefore tie j a b = true ∨ t.leavesBefore tie j b c = true := by
  rw [leavesBefore_iff] at hac
  rw [leavesBefore_iff, leavesBefore_iff]
  rcases lt_trichotomy (t.ratio j a) (t.ratio j b) with hab | hab | hba
  · exact Or.inl (Or.inl hab)
  · rcases hac with hac | ⟨hac, htie, hcol⟩
    · exact Or.inr (Or.inl (hab ▸ hac))
    · rcases lt_or_ge (t.basic a) (t.basic b) with hcol' | hcol'
      · exact Or.inl (Or.inr ⟨hab, htie, hcol'⟩)
      · exact Or.inr (Or.inr ⟨hab ▸ hac, htie, lt_of_le_of_lt hcol' hcol⟩)
  · have hbc : t.ratio j b < t.ratio j c := by
      rcases hac with hac | ⟨hac, -, -⟩
      · exact hba.trans hac
      · exact hac ▸ hba
    exact Or.inr (Or.inl hbc)

/-- Rows are gone through from the first one on, so of equal ratios the lowest row is kept. -/
theorem le_of_leavingRow?_lowestRow (h : t.leavingRow? eps .lowestRow j = some i) (hk : eps < t.entry k j)
    (hratio : t.ratio j k = t.ratio j i) : i ≤ k := by
  have hsorted : (t.blocking eps j).Pairwise (· < ·) :=
    (List.pairwise_lt_finRange m).sublist List.filter_sublist
  refine le_of_pick leavesBefore_trans (fun b _ a c => leavesBefore_weak a b c) hsorted h (mem_blocking.2 hk) ?_
  -- an equal ratio is not beaten
  refine Bool.of_not_eq_true fun hbeats => ?_
  rcases leavesBefore_iff.1 hbeats with hlt | ⟨-, htie, -⟩
  · exact absurd hratio hlt.ne'
  · cases htie

theorem le_of_leavingRow?_lowestBasisColumn (h : t.leavingRow? eps .lowestBasisColumn j = some i)
    (hk : eps < t.entry k j) (hratio : t.ratio j k = t.ratio j i) : t.basic i ≤ t.basic k := by
  by_contra hlt
  have hbefore : t.leavesBefore .lowestBasisColumn j k i = true :=
    leavesBefore_iff.2 (Or.inr ⟨hratio, rfl, not_le.1 hlt⟩)
  rw [not_leavesBefore_of_leavingRow? h hk] at hbefore
  cases hbefore

theorem leaves_of_leavingRow? (h : t.leavingRow? eps tie j = some i) : t.Leaves eps tie j i where
  lt_entry := lt_entry_of_leavingRow? h
  ratio_le _ hr := ratio_le_of_leavingRow? h hr
  first _ hr hratio := by
    cases tie with
    | lowestRow => exact le_of_leavingRow?_lowestRow h hr hratio
    | lowestBasisColumn => exact le_of_leavingRow?_lowestBasisColumn h hr hratio

/-- The scan finds the row that leaves, and no other. -/
theorem leavingRow?_eq_some_iff (hb : Function.Injective t.basic) :
    t.leavingRow? eps tie j = some i ↔ t.Leaves eps tie j i := by
  refine ⟨leaves_of_leavingRow?, fun hi => ?_⟩
  cases hk : t.leavingRow? eps tie j with
  | none => exact absurd hi.lt_entry (leavingRow?_eq_none_iff.1 hk i)
  | some k => rw [hi.eq hb (leaves_of_leavingRow? hk)]

end Choice

/-! ## The basic solution before rounding -/

section Solution

variable {F : Type} [Field F] {L : Layout} {m : Nat} {t : Tableau F L m} {b : Fin m → F}

/-- The basic solution with the right-hand sides `b` in place of the stored ones. -/
def solutionWith (t : Tableau F L m) (b : Fin m → F) (k : Fin L.columns) : F :=
  match t.rowOf? k with
  | some r => b r
  | none => 0

theorem solutionWith_basic (hb : Function.Injective t.basic) (r : Fin m) : t.solutionWith b (t.basic r) = b r := by
  rw [solutionWith, rowOf?_basic hb]

theorem solutionWith_of_not_basic {k : Fin L.columns} (hk : t.isBasic k = false) : t.solutionWith b k = 0 := by
  rw [solutionWith, rowOf?_of_not_basic hk]

variable [LinearOrder F] {j : Fin L.columns} {i : Fin m}

/-- Before rounding, a pivot raises the basic solution along the entering column by the ratio of its row. -/
theorem Canonical.solutionWith_pivot (h : t.Canonical) (eps : F) (hj : t.isBasic j = false)
    (hij : t.entry i j ≠ 0) :
    (t.pivot eps j i).solutionWith (t.exactLevel j i) = t.raise j (t.ratio j i) := by
  have hinj := basic_injective_pivot h.basic_injective eps i hj
  funext k
  rcases t.basic_or_not k with ⟨r, rfl⟩ | hk
  · rw [raise, h.solutionAt_basic, h.ray_basic]
    by_cases hr : r = i
    · -- the variable that leaves comes to zero
      have hout : (t.pivot eps j i).isBasic (t.basic r) = false := by
        refine Bool.of_not_eq_true fun hin => ?_
        rcases isBasic_pivot_iff.1 hin with hjr | ⟨r', hr', hbasic⟩
        · rw [← hjr, isBasic_iff.2 ⟨r, rfl⟩] at hj
          cases hj
        · exact hr' ((h.basic_injective hbasic).trans hr)
      rw [solutionWith_of_not_basic hout, hr, ratio]
      field_simp
      ring
    · rw [← basic_pivot_of_ne t eps j hr, solutionWith_basic hinj, exactLevel_of_ne t hr, levelAfter]
      ring
  · rw [raise, solutionAt_of_not_basic hk, ray_of_not_basic hk, zero_add]
    by_cases hkj : k = j
    · have hat := solutionWith_basic (b := t.exactLevel j i) hinj i
      rw [basic_pivot_self] at hat
      rw [hkj, if_pos rfl, mul_one, hat, exactLevel_self]
    · have hout : (t.pivot eps j i).isBasic k = false := by
        refine Bool.of_not_eq_true fun hin => ?_
        rcases isBasic_pivot_iff.1 hin with hjk | ⟨r, -, hbasic⟩
        · exact hkj hjk
        · rw [isBasic_iff.2 ⟨r, hbasic⟩] at hk
          cases hk
      rw [solutionWith_of_not_basic hout, if_neg hkj, mul_zero]

/-- What is stored after a pivot is the basic solution before rounding, but for variables that came out a little below
    zero and are stored as zero. -/
theorem solutionAt_pivot_eq_or (t : Tableau F L m) (eps : F) (k : Fin L.columns) :
    (t.pivot eps j i).solutionAt k = (t.pivot eps j i).solutionWith (t.exactLevel j i) k ∨
      (t.pivot eps j i).solutionAt k = 0 ∧ -eps < (t.pivot eps j i).solutionWith (t.exactLevel j i) k ∧
        (t.pivot eps j i).solutionWith (t.exactLevel j i) k < 0 := by
  rw [solutionAt, solutionWith]
  cases (t.pivot eps j i).rowOf? k with
  | none => exact Or.inl rfl
  | some r =>
    show (t.pivot eps j i).level r = t.exactLevel j i r ∨ (t.pivot eps j i).level r = 0 ∧
      -eps < t.exactLevel j i r ∧ t.exactLevel j i r < 0
    rw [level_pivot_eq]
    split
    · rename_i hsmall
      exact Or.inr ⟨rfl, hsmall.2.2, hsmall.2.1⟩
    · exact Or.inl rfl

end Solution

/-! ## The levels after the pivot -/

section Levels

variable {F : Type} [Field F] [LinearOrder F] [IsStrictOrderedRing F] {L : Layout} {m : Nat} {t : Tableau F L m}
  {eps : F} {tie : TieBreak} {j : Fin L.columns} {i r : Fin m}

/-- A row that the ratio test looked at, or that gains, is not negative after the pivot. -/
theorem Feasible.level_pivot_nonneg (hf : t.Feasible) (h0 : 0 < eps) (h : t.leavingRow? eps tie j = some i)
    (hr : t.entry r j ≤ 0 ∨ eps < t.entry r j) : 0 ≤ (t.pivot eps j i).level r := by
  have hratio := hf.ratio_nonneg_of_lt h0 (lt_entry_of_leavingRow? h)
  by_cases hri : r = i
  · rw [hri, level_pivot_self]
    exact hratio
  · have hafter : 0 ≤ t.levelAfter j i r := by
      rcases hr with hneg | hblock
      · exact hf.levelAfter_nonneg_of_ratio hratio hneg
      · exact levelAfter_nonneg_of_leavingRow? h h0 hblock
    rw [t.level_pivot_of_ne eps hri hafter]
    exact hafter

/-- A row that it did not look at falls short by no more than the tolerance times the step. -/
theorem Feasible.neg_le_level_pivot (hf : t.Feasible) (h0 : 0 < eps) (h : t.leavingRow? eps tie j = some i)
    (hr : t.entry r j ≤ eps) : -(eps * t.ratio j i) ≤ (t.pivot eps j i).level r := by
  have hlt := lt_entry_of_leavingRow? h
  have hratio := hf.ratio_nonneg_of_lt h0 hlt
  have hri : r ≠ i := by
    rintro rfl
    exact absurd hlt (not_lt.2 hr)
  have hmul : t.entry r j * t.ratio j i ≤ eps * t.ratio j i := mul_le_mul_of_nonneg_right hr hratio
  have hlevel := hf r
  rw [t.level_pivot eps hri]
  refine le_trans ?_ (le_settle eps _)
  rw [levelAfter]
  linarith

/-- **Ratio test and pivot.**  Let no right-hand side be negative, and let column `j` be outside the basis.  Under
    either tie-break, no row leaves exactly when no entry of the column is above the tolerance; otherwise it is the
    one row with an entry above the tolerance and the least ratio among these, the first of its equals.  After the
    pivot, no row that was looked at or that gains is negative, any other row falls short of zero by at most the
    tolerance times the step, and the value has changed by the relative cost times the step.  The basic solution,
    with what is stored as zero taken as it was computed, has the step in column `j` and the level less the entry
    times the step in every other basic column; it is what it was exactly if the step is zero. -/
theorem ratio_test_pivot (hc : t.Canonical) (hf : t.Feasible) (h0 : 0 < eps) (hj : t.isBasic j = false)
    (tie : TieBreak) :
    (t.leavingRow? eps tie j = none ↔ ∀ r, t.entry r j ≤ eps) ∧
    (∀ i, t.leavingRow? eps tie j = some i ↔ t.Leaves eps tie j i) ∧
    ∀ i, t.leavingRow? eps tie j = some i →
      (∀ r, t.entry r j ≤ 0 ∨ eps < t.entry r j → 0 ≤ (t.pivot eps j i).level r) ∧
      (∀ r, 0 < t.entry r j → t.entry r j ≤ eps → -(eps * t.ratio j i) ≤ (t.pivot eps j i).level r) ∧
      (t.pivot eps j i).value = t.value + t.cost j * t.ratio j i ∧
      (∀ k, (t.pivot eps j i).solutionAt k = (t.pivot eps j i).solutionWith (t.exactLevel j i) k ∨
        (t.pivot eps j i).solutionAt k = 0 ∧ -eps < (t.pivot eps j i).solutionWith (t.exactLevel j i) k ∧
          (t.pivot eps j i).solutionWith (t.exactLevel j i) k < 0) ∧
      (t.pivot eps j i).solutionWith (t.exactLevel j i) j = t.ratio j i ∧
      (∀ r, r ≠ i → (t.pivot eps j i).solutionWith (t.exactLevel j i) (t.basic r) =
        t.level r - t.entry r j * t.ratio j i) ∧
      (∀ k, (t.pivot eps j i).isBasic k = false → (t.pivot eps j i).solutionWith (t.exactLevel j i) k = 0) ∧
      ((t.pivot eps j i).solutionWith (t.exactLevel j i) = t.solutionAt ↔ t.ratio j i = 0) := by
  have hnone : t.leavingRow? eps tie j = none ↔ ∀ r, t.entry r j ≤ eps :=
    leavingRow?_eq_none_iff.trans (forall_congr' fun _ => not_lt)
  refine ⟨hnone, fun i => leavingRow?_eq_some_iff hc.basic_injective, fun i hi => ?_⟩
  have hij : t.entry i j ≠ 0 := (h0.trans (lt_entry_of_leavingRow? hi)).ne'
  have hraise := hc.solutionWith_pivot eps hj hij
  have hray : t.ray j j = 1 := (ray_of_not_basic hj).trans (if_pos rfl)
  have hzero : t.solutionAt j = 0 := solutionAt_of_not_basic hj
  refine ⟨fun r hr => hf.level_pivot_nonneg h0 hi hr, fun r _ hr => hf.neg_le_level_pivot h0 hi hr,
    t.value_pivot eps, t.solutionAt_pivot_eq_or eps, ?_, fun r _ => ?_, fun k hk => solutionWith_of_not_basic hk, ?_⟩
  · rw [hraise, raise, hzero, hray, zero_add, mul_one]
  · rw [hraise, raise, hc.solutionAt_basic, hc.ray_basic]
    ring
  · rw [hraise]
    constructor
    · intro hsame
      have hstep := congrFun hsame j
      rw [raise, hzero, hray, zero_add, mul_one] at hstep
      exact hstep
    · intro hstep
      funext k
      rw [raise, hstep, zero_mul, add_zero]

/-- Three rows, of which the first and the last one limit the first column equally, and the one between them hardly
    has an entry in it.  The basic columns stand in falling order. -/
def tied : Tableau ℚ ⟨1, 3, 0, 0⟩ 3 where
  rows := #v[⟨⟨#v[1, 0, 0, 1], 1⟩, ⟨3, by decide⟩⟩, ⟨⟨#v[1/16, 0, 1, 0], 0⟩, ⟨2, by decide⟩⟩,
    ⟨⟨#v[2, 1, 0, 0], 2⟩, ⟨1, by decide⟩⟩]
  objective := ⟨#v[-1, 0, 0, 0], 0⟩
  eligible := #v[true, true, true, true]

/-- In `tied`, the lowest row is the first one and the lowest basic column that of the last one.  The pivot there takes
    the row between them below zero, by less than the tolerance times the step, and that is stored as zero. -/
theorem ratio_test_pivot_tied : tied.leavingRow? (1/8) .lowestRow ⟨0, by decide⟩ = some 0 ∧
    tied.leavingRow? (1/8) .lowestBasisColumn ⟨0, by decide⟩ = some 2 ∧
    tied.Leaves (1/8) .lowestBasisColumn ⟨0, by decide⟩ 2 ∧
    (tied.pivot (1/8) ⟨0, by decide⟩ 2).value = tied.value - 1 ∧
    (tied.pivot (1/8) ⟨0, by decide⟩ 2).solutionWith (tied.exactLevel ⟨0, by decide⟩ 2) (tied.basic 1) = -1/16 ∧
    (tied.pivot (1/8) ⟨0, by decide⟩ 2).solutionAt (tied.basic 1) = 0 := by
  have hcanonical : tied.Canonical := by
    show ∀ i k, tied.entry i (tied.basic k) = if i = k then 1 else 0
    decide +kernel
  have hfeasible : tied.Feasible := by
    show ∀ i, 0 ≤ tied.level i
    decide +kernel
  have heps : (0 : ℚ) < 1/8 := by decide +kernel
  have hout : tied.isBasic ⟨0, by decide⟩ = false := by decide +kernel
  have hlast : tied.leavingRow? (1/8) .lowestBasisColumn ⟨0, by decide⟩ = some 2 := by decide +kernel
  obtain ⟨-, hleaves, hpivot⟩ := ratio_test_pivot hcanonical hfeasible heps hout .lowestBasisColumn
  obtain ⟨-, -, hvalue, -, -, hother, -⟩ := hpivot 2 hlast
  refine ⟨by decide +kernel, hlast, (hleaves 2).1 hlast, ?_, ?_, by decide +kernel⟩
  · rw [hvalue]
    decide +kernel
  · rw [hother 1 (by decide)]
    decide +kernel

end Levels

end Simplex.Tableau
