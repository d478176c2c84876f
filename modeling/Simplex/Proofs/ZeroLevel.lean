/-
  Driving artificial variables out moves nothing.

  An exchange picks its pivot by size alone: the entry can be negative, and no ratio is looked at.  What keeps the
  basic solution where it is is that the right-hand side of the row is set to zero first.  This holds of every
  tableau in which no column is basic twice, solved for its basis or not, and of every tolerance, as long as no
  right-hand side is so little below zero that a pivot takes it for a rounding error.

  1. `level_exchange_self`, `Settled.level_exchange_of_ne`, `value_exchange` — one exchange: the new basic variable is
     zero, the other rows keep their right-hand sides, and the objective keeps its value.
  2. `driveOut_rests`, `value_driveOut` — the same for one exchange after the other, rows that are marked as redundant
     included.
  3. `expelArtificials_moves_nothing` — what is left after all artificial variables are driven out, in a tableau with
     any number of rows, and the redundant rows are removed.
-/
import Simplex.Proofs.Exclusion
import Simplex.Proofs.Oversteps

namespace Simplex

namespace Tableau

/-! ## One exchange -/

section Exchange

variable {F : Type} [Field F] [LinearOrder F] {L : Layout} {m : Nat} {t : Tableau F L m} {eps : F}

/-- No right-hand side is so little below zero that a pivot would set it to zero. -/
def Settled (t : Tableau F L m) (eps : F) : Prop := ∀ i, ¬ (-eps < t.level i ∧ t.level i < 0)

instance (t : Tableau F L m) (eps : F) : Decidable (t.Settled eps) :=
  inferInstanceAs (Decidable (∀ i, ¬ (-eps < t.level i ∧ t.level i < 0)))

/-- The entering variable comes in at level zero. -/
theorem level_exchange_self (t : Tableau F L m) (eps : F) (j : Fin L.columns) (i : Fin m) :
    ((t.clearLevel i).pivot eps j i).level i = 0 := by
  rw [level_pivot_self, ratio, level_clearLevel_self, zero_div]

/-- The other rows keep their right-hand sides: nothing is added to them, and nothing is rounded. -/
theorem Settled.level_exchange_of_ne (h : t.Settled eps) (j : Fin L.columns) {i r : Fin m} (hr : r ≠ i) :
    ((t.clearLevel i).pivot eps j i).level r = t.level r := by
  have hsame : (t.clearLevel i).level r = t.level r := by rw [level, level, row_clearLevel_of_ne t hr]
  rw [level_pivot _ eps hr, levelAfter_of_level_eq_zero (t.level_clearLevel_self i), hsame, settle]
  exact if_neg fun hsmall => h r hsmall.symm

/-- An exchange at level zero leaves no level that would be rounded. -/
theorem Settled.exchange (h : t.Settled eps) (j : Fin L.columns) (i : Fin m) :
    ((t.clearLevel i).pivot eps j i).Settled eps := by
  intro r
  by_cases hr : r = i
  · rw [hr, level_exchange_self]
    exact fun hsmall => lt_irrefl 0 hsmall.2
  · rw [h.level_exchange_of_ne j hr]
    exact h r

/-- It does not change the value of the tableau. -/
theorem value_exchange (t : Tableau F L m) (eps : F) (j : Fin L.columns) (i : Fin m) :
    ((t.clearLevel i).pivot eps j i).value = t.value := by
  rw [value_pivot, ratio, level_clearLevel_self, zero_div, mul_zero, add_zero]
  rfl

end Exchange

/-! ## One exchange after the other -/

section DriveOut

variable {F E : Type} {L : Layout} {m : Nat} {eps : F} {limit pivots : Nat} {is : List (Fin m)} {t : Tableau F L m}
  {out : DrivenOut F L m} [Field F] [LinearOrder F]

/-- The objective keeps its value all along. -/
theorem value_driveOut (hout : (driveOut (E := E) eps limit is pivots t).result = .ok out) :
    out.tableau.value = t.value := by
  obtain ⟨b, htrail, hlast⟩ := follows_driveOut (E := E) eps limit is pivots t
  have hall := htrail.keeps (I := fun s => s.tableau.value = t.value) ?_ rfl b htrail.last_mem
  · rw [← hlast out hout] at hall
    exact hall
  · rintro a b ha ⟨hrep⟩
    exact (value_exchange _ eps _ _).trans ha

/-- A row that is gone through gets a basic variable that is not artificial, at level zero; the other rows, and those
    marked as redundant, keep basic variable and level. -/
theorem driveOut_rests (hnodup : is.Nodup) (hs : t.Settled eps)
    (hout : (driveOut (E := E) eps limit is pivots t).result = .ok out) :
    Sweeps (fun t i => (t.basic i, t.level i)) (fun row => L.isArtificial row.1 = false ∧ row.2 = 0) t is pivots
      out := by
  refine driveOut_sweeps (I := fun t => t.Settled eps) ?_ hnodup hs hout
  intro t i j hs hrep
  refine ⟨hs.exchange j i, ?_, ?_, level_exchange_self t eps j i⟩
  · intro k hk
    rw [basic_exchange_of_ne t eps j hk, hs.level_exchange_of_ne j hk]
  · rw [basic_pivot_self]
    exact (replacement?_eq_some hrep).1

end DriveOut

/-! ## All artificial variables -/

section Rows

variable {F : Type} {L : Layout} {m : Nat}

/-- A variable has the same value in two tableaux if, where it was basic, it still is, at the same level, and if
    otherwise it is at level zero. -/
theorem solutionAt_eq_of_rows [Zero F] {k : Nat} {t : Tableau F L m} {s : Tableau F L k} {j : Fin L.columns}
    (ht : Function.Injective t.basic) (hs : Function.Injective s.basic)
    (hstay : ∀ i, t.basic i = j → ∃ r, s.basic r = j ∧ s.level r = t.level i)
    (hnew : t.isBasic j = false → ∀ r, s.basic r = j → s.level r = 0) : s.solutionAt j = t.solutionAt j := by
  cases hb : t.isBasic j with
  | true =>
    obtain ⟨i, rfl⟩ := isBasic_iff.1 hb
    obtain ⟨r, hr, hlevel⟩ := hstay i rfl
    rw [← hr, solutionAt_basic hs, hlevel, hr, solutionAt_basic ht]
  | false =>
    rw [solutionAt_of_not_basic hb]
    cases hsb : s.isBasic j with
    | false => exact solutionAt_of_not_basic hsb
    | true =>
      obtain ⟨r, rfl⟩ := isBasic_iff.1 hsb
      rw [solutionAt_basic hs, hnew hb r rfl]

end Rows

section Moves

variable {F : Type} [Field F] [LinearOrder F] {L : Layout} {m : Nat} {t : Tableau F L m} {pivots : Nat}
  {out : DrivenOut F L m}

omit [Field F] [LinearOrder F] in
/-- As many pivots as there are rows with an artificial variable that are not marked as redundant. -/
theorem Sweeps.pivots_eq {α : Type} {view : Tableau F L m → Fin m → α} {fresh : α → Prop}
    (h : Sweeps view fresh t t.artificialBasics pivots out) :
    out.pivots = pivots + Finset.card {i | L.isArtificial (t.basic i) = true ∧ i ∉ out.redundant} := by
  have hnodup := t.nodup_artificialBasics
  have hset : ({i | L.isArtificial (t.basic i) = true ∧ i ∉ out.redundant} : Finset (Fin m)) =
      t.artificialBasics.toFinset \ out.redundant.toFinset := by
    ext i
    simp [mem_artificialBasics]
  have hsub : out.redundant.toFinset ⊆ t.artificialBasics.toFinset := by
    intro i hi
    rw [List.mem_toFinset] at hi ⊢
    exact h.sublist.subset hi
  have hle := h.sublist.length_le
  have hadd := h.pivots_add
  rw [hset, Finset.card_sdiff_of_subset hsub, List.toFinset_card_of_nodup hnodup,
    List.toFinset_card_of_nodup (h.sublist.nodup hnodup)]
  omega

section

variable {options : Options F} {i : Fin m}

/-- A row without an artificial variable stays, with its basic variable and its level. -/
theorem kept_of_expelArtificials (hs : t.Settled options.eps)
    (hout : (t.expelArtificials options pivots).result = .ok out) (hi : L.isArtificial (t.basic i) = false) :
    i ∉ out.redundant ∧ out.tableau.basic i = t.basic i ∧ out.tableau.level i = t.level i := by
  obtain ⟨redundant, hdriven, hsorted⟩ := expelArtificials_eq_ok_iff.1 hout
  have hsweeps := driveOut_rests t.nodup_artificialBasics hs hdriven
  have hnot : i ∉ t.artificialBasics := by
    rw [mem_artificialBasics, hi]
    exact Bool.false_ne_true
  rw [hsorted, List.mem_mergeSort]
  refine ⟨fun hred => hnot (hsweeps.sublist.subset hred), ?_⟩
  exact Prod.ext_iff.1 (hsweeps.kept i (Or.inl hnot))

/-- A row that loses its artificial variable to another one is at level zero. -/
theorem replaced_of_expelArtificials (hs : t.Settled options.eps)
    (hout : (t.expelArtificials options pivots).result = .ok out) (hi : L.isArtificial (t.basic i) = true)
    (hred : i ∉ out.redundant) :
    L.isArtificial (out.tableau.basic i) = false ∧ out.tableau.level i = 0 := by
  obtain ⟨redundant, hdriven, hsorted⟩ := expelArtificials_eq_ok_iff.1 hout
  have hsweeps := driveOut_rests t.nodup_artificialBasics hs hdriven
  rw [hsorted, List.mem_mergeSort] at hred
  exact hsweeps.replaced i (mem_artificialBasics.2 hi) hred

end

/-- **Driving artificial variables out moves nothing.**  Take any tableau in which no column is basic in two rows, any
    choices and any number of pivots so far.  If no right-hand side is strictly between minus the tolerance and zero,
    and if driving all artificial variables out succeeds, then once the redundant rows are removed: every variable that
    is not artificial has the value it had, and the objective the value it had; every row whose basic variable was not
    artificial is still there, with its basic variable and its right-hand side; no row has an artificial basic
    variable, and those that had one are at level zero; and there was a pivot for each of the latter. -/
theorem expelArtificials_moves_nothing (hinj : Function.Injective t.basic) {options : Options F}
    (hs : t.Settled options.eps) (hout : (t.expelArtificials options pivots).result = .ok out) :
    (∀ j : Fin L.columns, L.isArtificial j = false →
      (out.tableau.removeRows out.redundant).solutionAt j = t.solutionAt j) ∧
    (out.tableau.removeRows out.redundant).value = t.value ∧
    (∀ i, L.isArtificial (t.basic i) = false → ∃ k, (survivors out.redundant).get k = i ∧
      (out.tableau.removeRows out.redundant).basic k = t.basic i ∧
      (out.tableau.removeRows out.redundant).level k = t.level i) ∧
    (∀ k, L.isArtificial ((out.tableau.removeRows out.redundant).basic k) = false) ∧
    (∀ k, L.isArtificial (t.basic ((survivors out.redundant).get k)) = true →
      (out.tableau.removeRows out.redundant).level k = 0) ∧
    out.pivots = pivots + Finset.card {i | L.isArtificial (t.basic i) = true ∧ i ∉ out.redundant} := by
  obtain ⟨redundant, hdriven, hsorted⟩ := expelArtificials_eq_ok_iff.1 hout
  have hkept := fun i => kept_of_expelArtificials hs hout (i := i)
  have hreplaced := fun i => replaced_of_expelArtificials hs hout (i := i)
  have hvalue := value_driveOut hdriven
  have hleft : ∀ k, (survivors out.redundant).get k ∉ out.redundant :=
    fun k => mem_survivors.1 (List.get_mem _ k)
  refine ⟨?_, hvalue, ?_, ?_, ?_, ?_⟩
  · intro j hj
    refine solutionAt_eq_of_rows hinj (basic_injective_removeRows (basic_injective_driveOut hinj hdriven) _) ?_ ?_
    · rintro i rfl
      obtain ⟨hi, hbasic, hlevel⟩ := hkept i hj
      obtain ⟨k, rfl⟩ := exists_get_survivors hi
      exact ⟨k, by rw [basic_removeRows, hbasic], by rw [level_removeRows, hlevel]⟩
    · -- a column that was not basic entered in a row that was gone through
      intro hb k hk
      rw [basic_removeRows] at hk
      rw [level_removeRows]
      cases hart : L.isArtificial (t.basic ((survivors out.redundant).get k)) with
      | true => exact (hreplaced _ hart (hleft k)).2
      | false =>
        rw [(hkept _ hart).2.1] at hk
        rw [isBasic_iff.2 ⟨_, hk⟩] at hb
        cases hb
  · intro i hi
    obtain ⟨hred, hbasic, hlevel⟩ := hkept i hi
    obtain ⟨k, rfl⟩ := exists_get_survivors hred
    exact ⟨k, rfl, by rw [basic_removeRows, hbasic], by rw [level_removeRows, hlevel]⟩
  · intro k
    rw [basic_removeRows]
    cases hart : L.isArtificial (t.basic ((survivors out.redundant).get k)) with
    | true => exact (hreplaced _ hart (hleft k)).1
    | false =>
      rw [(hkept _ hart).2.1]
      exact hart
  · intro k hart
    rw [level_removeRows]
    exact (hreplaced _ hart (hleft k)).2
  · simp only [hsorted, List.mem_mergeSort]
    exact (driveOut_rests t.nodup_artificialBasics hs hdriven).pivots_eq

/-- A row for a slack variable, one for an artificial variable a little above zero, and one that says nothing. -/
def leftover : Tableau ℚ ⟨2, 1, 0, 2⟩ 3 :=
  fill ⟨2, 1, 0, 2⟩ [[1, 1, 1, 0, 0], [-1, 1, 0, 1, 0], [0, 0, 0, 0, 1]] [3, 1/16, 0]

/-- The first artificial variable of `leftover` makes place for the first column, by a pivot on a negative entry; the
    row of the second one is removed.  The slack variable stays where it is, at three. -/
theorem expelArtificials_moves_nothing_leftover : Function.Injective leftover.basic ∧ leftover.Settled (1/8) ∧
    ∃ out, (leftover.expelArtificials (⟨1/8, some 9, .dantzig, 0⟩ : Options ℚ) 4).result = .ok out ∧
      out.redundant.map (·.val) = [2] ∧ (out.tableau.basic ⟨1, by decide⟩).val = 0 ∧
      (out.tableau.removeRows out.redundant).solutionAt ⟨0, by decide⟩ = 0 ∧
      (out.tableau.removeRows out.redundant).solutionAt ⟨2, by decide⟩ = 3 ∧ out.pivots = 5 := by
  have hinj : Function.Injective leftover.basic := by decide +kernel
  have hs : leftover.Settled (⟨1/8, some 9, .dantzig, 0⟩ : Options ℚ).eps := by decide +kernel
  have hrows : leftover.artificialBasics = [⟨1, by decide⟩, ⟨2, by decide⟩] := by
    rw [artificialBasics, List.mergeSort_of_pairwise (by decide +kernel)]
    decide +kernel
  have hend : (match (driveOut (E := ℚ) (1/8 : ℚ) 9 [⟨1, by decide⟩, ⟨2, by decide⟩] 4 leftover).result with
      | .ok out => decide (out.redundant = [⟨2, by decide⟩] ∧ (out.tableau.basic ⟨1, by decide⟩).val = 0)
      | .error _ => false) = true := by decide +kernel
  split at hend
  · rename_i out hdriven
    obtain ⟨hred, hbasic⟩ := of_decide_eq_true hend
    rw [← hrows] at hdriven
    have hout : (leftover.expelArtificials (⟨1/8, some 9, .dantzig, 0⟩ : Options ℚ) 4).result = .ok out :=
      expelArtificials_eq_ok_iff.2 ⟨out.redundant, hdriven, by rw [hred, List.mergeSort_singleton]⟩
    obtain ⟨hsolution, -, -, -, -, hpivots⟩ := expelArtificials_moves_nothing hinj hs hout
    refine ⟨hinj, hs, out, hout, by rw [hred]; rfl, hbasic, ?_, ?_, ?_⟩
    · rw [hsolution _ (by decide)]
      decide +kernel
    · rw [hsolution _ (by decide)]
      decide +kernel
    · rw [hpivots, hred]
      decide +kernel
  · cases hend

end Moves

end Tableau

end Simplex
