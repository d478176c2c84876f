/-
  The first phase hands over the same problem without its artificial variables.

  At the least sum of the artificial variables, if that is zero, every artificial variable that is still basic is
  at level zero.

  1. `ReadyToExpel` — a feasible tableau of a problem in which artificial basic variables are at level zero.  A
     pivot in such a row moves nothing (`ReadyToExpel.pivot`), whatever the sign of the pivot entry.
  2. `Vacant` — a row that is zero in every column that is not artificial.  It stays so (`Vacant.pivot`), and
     says nothing about points without artificial variables.  `Faint` — a row that is zero there up to the tolerance.
  3. `driveOut_expels` — by induction on the rows gone through: each of them gets a basic variable that is not
     artificial, or is vacant and marked as redundant.
  4. `HandedOver` — what the second phase starts from: feasible, no artificial basic variable, the same
     solutions as long as artificial variables are zero.
-/
import Simplex.Proofs.Loading
import Simplex.Proofs.Resolution

namespace Simplex

variable {F : Type} [Field F] [LinearOrder F] {L : Layout} {m : Nat}

namespace Tableau

/-! ## Pivots at level zero -/

/-- A feasible tableau of the problem in which artificial basic variables are at level zero. -/
structure ReadyToExpel (t : Tableau F L m) (P : Problem F L) : Prop where
  presents : t.Presents P
  feasible : t.Feasible
  level_eq_zero : ∀ i, L.isArtificial (t.basic i) = true → t.level i = 0

theorem clearLevel_of_level_eq_zero {t : Tableau F L m} {i : Fin m} (h : t.level i = 0) :
    t.clearLevel i = t := by
  have hrow : ({ t.row i with line := { (t.row i).line with rhs := 0 } } : Row F L.columns) =
      t.row i := by
    rw [← h]
    rfl
  rw [clearLevel, hrow]
  simp [row, get_eq_getElem]

theorem levelAfter_of_level_eq_zero {t : Tableau F L m} {j : Fin L.columns} {i : Fin m}
    (h : t.level i = 0) (r : Fin m) : t.levelAfter j i r = t.level r := by
  rw [levelAfter, ratio, h, zero_div, mul_zero, sub_zero]

section Pivot

variable {P : Problem F L} {t : Tableau F L m} {j : Fin L.columns} {i : Fin m}

theorem level_pivot_of_level_eq_zero (hf : t.Feasible) (eps : F) (h : t.level i = 0) (r : Fin m) :
    (t.pivot eps j i).level r = t.level r := by
  have hafter := levelAfter_of_level_eq_zero (j := j) h r
  by_cases hr : r = i
  · rw [hr, t.level_pivot_self, ratio, h, zero_div]
  · rw [t.level_pivot_of_ne eps hr (by rw [hafter]; exact hf r), hafter]

/-- Exchanging an artificial basic variable at level zero for another variable keeps everything ready. -/
theorem ReadyToExpel.pivot (h : t.ReadyToExpel P) (eps : F) (hj : P.allowed j = true)
    (hi : t.level i = 0) (hij : t.entry i j ≠ 0) :
    (t.pivot eps j i).ReadyToExpel P where
  presents := by
    refine h.presents.pivot eps hj hij ?_
    intro r _
    rw [levelAfter_of_level_eq_zero hi]
    exact h.feasible r
  feasible r := by
    rw [level_pivot_of_level_eq_zero h.feasible eps hi]
    exact h.feasible r
  level_eq_zero r hr := by
    rw [level_pivot_of_level_eq_zero h.feasible eps hi]
    by_cases hri : r = i
    · rw [hri]
      exact hi
    · rw [basic_pivot_of_ne t eps j hri] at hr
      exact h.level_eq_zero r hr

/-! ## Vacant rows -/

/-- The row is zero in every column that is not artificial. -/
def Vacant (t : Tableau F L m) (i : Fin m) : Prop :=
  ∀ j : Fin L.columns, L.isArtificial j = false → t.entry i j = 0

/-- The row has no entry above the tolerance in any column that is not artificial. -/
def Faint (t : Tableau F L m) (eps : F) (i : Fin m) : Prop :=
  ∀ j : Fin L.columns, L.isArtificial j = false → |t.entry i j| ≤ eps

instance (t : Tableau F L m) (eps : F) (i : Fin m) : Decidable (t.Faint eps i) :=
  inferInstanceAs (Decidable (∀ j : Fin L.columns, L.isArtificial j = false → |t.entry i j| ≤ eps))

/-- A vacant row stays vacant: it is not the pivot row, and has nothing in the pivot column. -/
theorem Vacant.pivot {k : Fin m} (h : t.Vacant k) (eps : F) (hart : L.isArtificial j = false)
    (hij : t.entry i j ≠ 0) : (t.pivot eps j i).Vacant k := by
  intro c hc
  have hki : k ≠ i := by
    rintro rfl
    exact hij (h j hart)
  rw [t.entry_pivot_of_ne eps hij hki, h c hc, h j hart]
  ring

omit [LinearOrder F] in
/-- The basic variable of a vacant row is artificial. -/
theorem Vacant.isArtificial_basic (h : t.Vacant i) (hc : t.Canonical) :
    L.isArtificial (t.basic i) = true := by
  by_contra hart
  have h1 := hc i i
  rw [if_pos rfl, h _ (Bool.of_not_eq_true hart)] at h1
  exact zero_ne_one h1

omit [LinearOrder F] in
/-- A vacant row at level zero says nothing about points without artificial variables. -/
theorem Vacant.eval_eq_zero (h : t.Vacant i) {x : Fin L.columns → F}
    (hx : L.WithoutArtificials x) : (t.row i).line.eval x = 0 := by
  refine Finset.sum_eq_zero ?_
  intro j _
  rcases Bool.eq_false_or_eq_true (L.isArtificial j) with hj | hj
  · rw [hx j hj, mul_zero]
  · have hentry : (t.row i).line.cell j = 0 := h j hj
    rw [hentry, zero_mul]

end Pivot

/-! ## Driving artificial variables out -/

section DriveOut

variable {E : Type} {eps : F} {limit pivots : Nat} {t : Tableau F L m} {i : Fin m}
  {rest : List (Fin m)}

variable [IsStrictOrderedRing F] {P : Problem F L}

/-- Where nothing can take the place of the artificial variable, the row is faint. -/
theorem Canonical.faint_of_replacement?_eq_none (h : t.Canonical) (h0 : 0 < eps)
    (hi : L.isArtificial (t.basic i) = true) (hnone : t.replacement? eps i = none) : t.Faint eps i := by
  intro j hj
  rcases t.basic_or_not j with ⟨k, rfl⟩ | hb
  · have hik : i ≠ k := by
      rintro rfl
      rw [hi] at hj
      cases hj
    rw [h i k, if_neg hik, abs_zero]
    exact h0.le
  · have hfind := List.find?_eq_none.1 hnone j (List.mem_finRange j)
    simp only [hj, hb, Bool.not_false, Bool.true_and] at hfind
    exact not_lt.1 fun hlt => hfind (significant_iff.2 hlt)

/-- Under a tolerance that resolves the problem, such a row is vacant. -/
theorem ReadyToExpel.vacant_of_replacement?_eq_none (h : t.ReadyToExpel P)
    (hall : ∀ j, P.allowed j = true) (hr : P.ResolvedBy eps) (h0 : 0 < eps)
    (hi : L.isArtificial (t.basic i) = true) (hnone : t.replacement? eps i = none) :
    t.Vacant i := by
  intro j hj
  have hsmall := h.presents.canonical.faint_of_replacement?_eq_none h0 hi hnone j hj
  by_contra hne
  exact not_lt.2 hsmall (significant_iff.1 ((h.presents.significant_entry_iff hr h0 (hall j) i).2 hne))

/-- What driving out the artificial variables of the rows `is` of `t` comes to. -/
structure Expels (P : Problem F L) (t : Tableau F L m) (is : List (Fin m))
    (out : DrivenOut F L m) : Prop where
  ready : out.tableau.ReadyToExpel P
  basic_eq : ∀ i, i ∉ is → out.tableau.basic i = t.basic i
  vacant : ∀ i, t.Vacant i → out.tableau.Vacant i
  replaced : ∀ i ∈ is, i ∉ out.redundant → L.isArtificial (out.tableau.basic i) = false
  redundant : ∀ i ∈ out.redundant, out.tableau.Vacant i

omit [IsStrictOrderedRing F] in
/-- One more row, found to be redundant. -/
theorem Expels.of_vacant {sub : DrivenOut F L m} (h : Expels P t rest sub) (hi : t.Vacant i) :
    Expels P t (i :: rest) { sub with redundant := i :: sub.redundant } where
  ready := h.ready
  basic_eq k hk := h.basic_eq k fun hmem => hk (List.mem_cons_of_mem _ hmem)
  vacant := h.vacant
  replaced k hk hkred := by
    rcases List.mem_cons.1 hk with rfl | hk
    · exact absurd (List.mem_cons_self ..) hkred
    · exact h.replaced k hk fun hmem => hkred (List.mem_cons_of_mem _ hmem)
  redundant k hk := by
    rcases List.mem_cons.1 hk with rfl | hk
    · exact h.vacant k hi
    · exact h.redundant k hk

omit [IsStrictOrderedRing F] in
/-- One more row, whose artificial variable is exchanged for that of column `j`. -/
theorem Expels.of_pivot {j : Fin L.columns} {out : DrivenOut F L m}
    (h : Expels P (t.pivot eps j i) rest out) (hi : i ∉ rest) (hj : L.isArtificial j = false)
    (hij : t.entry i j ≠ 0) : Expels P t (i :: rest) out where
  ready := h.ready
  basic_eq k hk := by
    have hki : k ≠ i := fun e => hk (e ▸ List.mem_cons_self ..)
    rw [h.basic_eq k fun hmem => hk (List.mem_cons_of_mem _ hmem), basic_pivot_of_ne t eps j hki]
  vacant k hk := h.vacant k (hk.pivot eps hj hij)
  replaced k hk hkred := by
    rcases List.mem_cons.1 hk with rfl | hk
    · rw [h.basic_eq k hi, basic_pivot_self]
      exact hj
    · exact h.replaced k hk hkred
  redundant := h.redundant

/-- One artificial variable after the other is replaced, or its row is found to be redundant. -/
theorem driveOut_expels (hall : ∀ j, P.allowed j = true) (hr : P.ResolvedBy eps) (h0 : 0 < eps) :
    ∀ (is : List (Fin m)) (pivots : Nat) (t : Tableau F L m) (out : DrivenOut F L m), is.Nodup →
      t.ReadyToExpel P → (∀ i ∈ is, L.isArtificial (t.basic i) = true) →
      (driveOut (E := E) eps limit is pivots t).result = .ok out → Expels P t is out := by
  intro is pivots t out hnodup hready hart hout
  refine driveOut_induct (motive := fun is _ t out => is.Nodup → t.ReadyToExpel P →
    (∀ i ∈ is, L.isArtificial (t.basic i) = true) → Expels P t is out) ?_ ?_ ?_ hout hnodup hready hart
  · intro pivots t _ hready _
    exact ⟨hready, fun _ _ => rfl, fun _ hv => hv, fun i hi => (nomatch hi), fun i hi => (nomatch hi)⟩
  · intro i rest pivots t out hrep _ ih hnodup hready hart
    obtain ⟨hi, hrest⟩ := List.nodup_cons.1 hnodup
    obtain ⟨hiart, hartrest⟩ := List.forall_mem_cons.1 hart
    exact (ih hrest hready hartrest).of_vacant (hready.vacant_of_replacement?_eq_none hall hr h0 hiart hrep)
  · intro i rest pivots t out j hrep _ _ ih hnodup hready hart
    obtain ⟨hi, hrest⟩ := List.nodup_cons.1 hnodup
    obtain ⟨hiart, hartrest⟩ := List.forall_mem_cons.1 hart
    obtain ⟨hjart, hsig⟩ := replacement?_eq_some hrep
    have hne := (hready.presents.significant_entry_iff hr h0 (hall j) i).1 hsig
    have hlevel := hready.level_eq_zero i hiart
    rw [clearLevel_of_level_eq_zero hlevel] at ih
    refine (ih hrest (hready.pivot eps (hall j) hlevel hne) (fun k hk => ?_)).of_pivot hi hjart hne
    have hki : k ≠ i := fun e => hi (e ▸ hk)
    rw [basic_pivot_of_ne t eps j hki]
    exact hartrest k hk

end DriveOut

/-- With one pivot allowed for each row, driving out ends, and ends the same way under every such limit. -/
theorem exists_driveOut {E : Type} (eps : F) :
    ∀ (is : List (Fin m)) (pivots : Nat) (t : Tableau F L m), ∃ out : DrivenOut F L m,
      ∀ limit, pivots + is.length ≤ limit →
        (driveOut (E := E) eps limit is pivots t).result = .ok out := by
  intro is
  induction is with
  | nil =>
    intro pivots t
    exact ⟨⟨t, [], pivots⟩, fun _ _ => rfl⟩
  | cons i rest ih =>
    intro pivots t
    cases hrep : t.replacement? eps i with
    | none =>
      obtain ⟨out, hout⟩ := ih pivots t
      refine ⟨{ out with redundant := i :: out.redundant }, ?_⟩
      intro limit hlimit
      rw [List.length_cons] at hlimit
      rw [result_driveOut_of_none hrep, hout limit (by omega)]
      rfl
    | some j =>
      obtain ⟨out, hout⟩ := ih (pivots + 1) ((t.clearLevel i).pivot eps j i)
      refine ⟨out, ?_⟩
      intro limit hlimit
      rw [List.length_cons] at hlimit
      rw [result_driveOut_of_some hrep (by omega)]
      exact hout limit (by omega)

/-! ## Removing the redundant rows -/

omit [Field F] [LinearOrder F] in
theorem mem_artificialBasics {t : Tableau F L m} {i : Fin m} :
    i ∈ t.artificialBasics ↔ L.isArtificial (t.basic i) = true := by
  simp [artificialBasics, List.mem_mergeSort, List.mem_filter, List.mem_finRange]

omit [Field F] [LinearOrder F] in
theorem nodup_artificialBasics (t : Tableau F L m) : t.artificialBasics.Nodup :=
  (List.mergeSort_perm _ _).nodup_iff.2 ((List.nodup_finRange m).filter _)

theorem get_survivors_inj {removed : List (Fin m)} {k l : Fin (survivors removed).length} :
    (survivors removed).get k = (survivors removed).get l ↔ k = l :=
  (List.nodup_iff_injective_get.1 ((List.nodup_finRange m).filter _)).eq_iff

omit [Field F] [LinearOrder F] in
theorem basic_injective_removeRows {t : Tableau F L m} (h : Function.Injective t.basic)
    (removed : List (Fin m)) : Function.Injective (t.removeRows removed).basic := by
  intro i k hik
  rw [basic_removeRows, basic_removeRows] at hik
  exact get_survivors_inj.1 (h hik)

omit [LinearOrder F] in
theorem Canonical.removeRows {t : Tableau F L m} (h : t.Canonical) (removed : List (Fin m)) :
    (t.removeRows removed).Canonical := by
  intro i l
  have hentry := h ((survivors removed).get i) ((survivors removed).get l)
  rw [entry, basic, row_removeRows, row_removeRows]
  rw [entry, basic] at hentry
  rw [hentry, if_congr get_survivors_inj rfl rfl]

/-- What the second phase starts from, if the first one started from `first`: a feasible tableau without
    artificial basic variables that says the same where artificial variables are zero. -/
structure HandedOver {k : Nat} (first : Tableau F L k) (t : Tableau F L m) : Prop where
  canonical : t.Canonical
  feasible : t.Feasible
  not_artificial : ∀ i, L.isArtificial (t.basic i) = false
  eligible : ∀ j, t.isEligible j = true
  holds_iff : ∀ x, L.WithoutArtificials x → (t.Holds x ↔ first.Holds x)

/-- Vacant rows can go, and if the others have no artificial basic variable, everything is ready for the second
    phase. -/
theorem ReadyToExpel.handedOver {k : Nat} {first : Tableau F L k} {t : Tableau F L m}
    (h : t.ReadyToExpel (.artificial first)) {redundant : List (Fin m)}
    (hvacant : ∀ i ∈ redundant, t.Vacant i)
    (hkept : ∀ i, i ∉ redundant → L.isArtificial (t.basic i) = false) :
    HandedOver first (t.removeRows redundant) where
  canonical := h.presents.canonical.removeRows redundant
  feasible i := by
    rw [level, row_removeRows]
    exact h.feasible _
  not_artificial i := by
    rw [basic, row_removeRows]
    exact hkept _ (mem_survivors.1 (List.get_mem _ i))
  eligible := h.presents.eligible
  holds_iff x hx := by
    refine Iff.trans ⟨fun hholds i => ?_, fun hholds i => ?_⟩
      (h.presents.holds_iff x (Problem.within_artificial first x))
    · by_cases hi : i ∈ redundant
      · -- both sides of a vacant row are zero
        have hv := hvacant i hi
        rw [hv.eval_eq_zero hx, h.level_eq_zero i (hv.isArtificial_basic h.presents.canonical)]
      · obtain ⟨k, rfl⟩ := exists_get_survivors hi
        have hrow := hholds k
        rw [level, row_removeRows] at hrow
        exact hrow
    · rw [level, row_removeRows]
      exact hholds _

end Tableau

end Simplex
