/-
  When a right-hand side turns negative.

  The ratio test does not look at entries up to the tolerance, but a pivot changes their rows like all others.  A
  row with a small positive entry can so be taken below zero, and if the step is long, by more than the
  tolerance: then nothing sets it back to zero.

  1. `settle` — what becomes of a right-hand side that is looked at for rounding errors, and `level_pivot` — the
     levels after a pivot, under any tolerance.
  2. `Oversteps` — the next pivot takes such a row below zero by the tolerance or more.
  3. `Feasible.of_stepsTo` — every other step of a run, of either phase, leaves all right-hand sides nonnegative:
     chosen pivots, exchanges at level zero, and the removal of redundant rows.
  4. `Program.feasible_of_reached` — so all tableaux reached are feasible up to the first one that oversteps, and
     `Program.shallow` — a program that gets there.
-/
import Simplex.Proofs.Reached
import Simplex.Proofs.Termination

namespace Simplex

/-! ## Right-hand sides that are looked at -/

section Settle

variable {F : Type} [Field F] [LinearOrder F]

/-- A right-hand side after it was looked at for rounding errors. -/
def settle (eps x : F) : F := if x < 0 ∧ -eps < x then 0 else x

theorem settle_nonneg {eps x : F} (h : -eps < x) : 0 ≤ settle eps x := by
  rw [settle]
  split
  · exact le_refl 0
  · rename_i hnot
    exact not_lt.1 fun hneg => hnot ⟨hneg, h⟩

/-- Nothing is set lower than it was. -/
theorem le_settle (eps x : F) : x ≤ settle eps x := by
  rw [settle]
  split
  · rename_i hsmall
    exact hsmall.1.le
  · exact le_refl x

theorem Line.rhs_snap {n : Nat} (eps : F) (l : Line F n) : (l.snap eps).rhs = settle eps l.rhs := by
  rw [snap, settle]
  split <;> rfl

namespace Tableau

variable {L : Layout} {m : Nat}

/-- The level of another row after a pivot, whatever the tolerance. -/
theorem level_pivot (t : Tableau F L m) (eps : F) {j : Fin L.columns} {i r : Fin m} (hr : r ≠ i) :
    (t.pivot eps j i).level r = settle eps (t.levelAfter j i r) := by
  rw [level, row_pivot_of_ne t eps j hr, Line.rhs_snap, rhs_eliminate_pivotLine]

/-! ## Steps that are too long -/

instance (t : Tableau F L m) (eps : F) (mode : Mode) (j : Fin L.columns) (i : Fin m) :
    Decidable (t.Chooses eps mode j i) :=
  decidable_of_iff (t.enteringColumn? eps mode = some j ∧ t.leavingRow? eps mode.tieBreak j = some i)
    ⟨fun h => ⟨h.1, h.2⟩, fun h => ⟨h.entering, h.leaving⟩⟩

/-- In some mode, the next pivot is one of the given ones.  A tableau does not know the mode that a run is in, so the
    pivot that the other mode would make counts, too. -/
def Invites (t : Tableau F L m) (eps : F) (which : Fin L.columns → Fin m → Prop) : Prop :=
  ∃ mode j i, t.Chooses eps mode j i ∧ which j i

instance (t : Tableau F L m) (eps : F) (which : Fin L.columns → Fin m → Prop)
    [∀ j i, Decidable (which j i)] : Decidable (t.Invites eps which) :=
  decidable_of_iff (∃ mode ∈ [Mode.careful, Mode.greedy], ∃ j i, t.Chooses eps mode j i ∧ which j i)
    ⟨fun ⟨mode, _, h⟩ => ⟨mode, h⟩, fun ⟨mode, h⟩ => ⟨mode, by cases mode <;> simp, h⟩⟩

/-- The next pivot takes a row with a positive entry that the ratio test does not look at below zero, by the
    tolerance or more. -/
def Oversteps (t : Tableau F L m) (eps : F) : Prop :=
  t.Invites eps fun j i => ∃ r, (0 < t.entry r j ∧ t.entry r j ≤ eps) ∧ t.levelAfter j i r ≤ -eps

instance (t : Tableau F L m) (eps : F) : Decidable (t.Oversteps eps) :=
  inferInstanceAs (Decidable (t.Invites eps _))

end Tableau

end Settle

variable {F : Type} [Field F] [LinearOrder F] [IsStrictOrderedRing F] {L : Layout} {m : Nat}

namespace Tableau

section Step

variable {t : Tableau F L m} {eps : F}

/-- A chosen pivot that does not overstep takes no row below zero by the tolerance. -/
theorem Feasible.lt_levelAfter (hf : t.Feasible) (h0 : 0 < eps) (hstep : ¬ t.Oversteps eps)
    {mode : Mode} {j : Fin L.columns} {i : Fin m} (h : t.Chooses eps mode j i) (r : Fin m) :
    -eps < t.levelAfter j i r := by
  have hneg : -eps < 0 := neg_lt_zero.2 h0
  rcases lt_or_ge eps (t.entry r j) with hblock | hsmall
  · exact hneg.trans_le (h.levelAfter_nonneg h0 hblock)
  · rcases lt_or_ge 0 (t.entry r j) with hpos | hnonpos
    · exact not_le.1 fun hfar => hstep ⟨mode, j, i, h, r, ⟨hpos, hsmall⟩, hfar⟩
    · exact hneg.trans_le (hf.levelAfter_nonneg_of_nonpos h0 h hnonpos)

theorem Feasible.pivot_of_not_oversteps (hf : t.Feasible) (h0 : 0 < eps) (hstep : ¬ t.Oversteps eps)
    {mode : Mode} {j : Fin L.columns} {i : Fin m} (h : t.Chooses eps mode j i) :
    (t.pivot eps j i).Feasible := by
  intro r
  by_cases hr : r = i
  · rw [hr, t.level_pivot_self]
    exact hf.ratio_nonneg h h0
  · rw [t.level_pivot eps hr]
    exact settle_nonneg (hf.lt_levelAfter h0 hstep h r)

end Step

section Other

omit [IsStrictOrderedRing F]

variable {t : Tableau F L m}

theorem level_clearLevel_self (t : Tableau F L m) (i : Fin m) : (t.clearLevel i).level i = 0 := by
  rw [level, row_clearLevel_self]

theorem Feasible.clearLevel (hf : t.Feasible) (i : Fin m) : (t.clearLevel i).Feasible := by
  intro r
  by_cases hr : r = i
  · rw [hr, level_clearLevel_self]
  · rw [level, row_clearLevel_of_ne t hr]
    exact hf r

/-- An exchange at level zero moves no level but that of its row. -/
theorem Feasible.exchange (hf : t.Feasible) (eps : F) (j : Fin L.columns) (i : Fin m) :
    ((t.clearLevel i).pivot eps j i).Feasible := by
  intro r
  rw [level_pivot_of_level_eq_zero (hf.clearLevel i) eps (level_clearLevel_self t i)]
  exact hf.clearLevel i r

theorem Feasible.removeRows (hf : t.Feasible) (redundant : List (Fin m)) :
    (t.removeRows redundant).Feasible := by
  intro i
  rw [level, row_removeRows]
  exact hf _

end Other

/-! ## Along a run -/

/-- A step of a run keeps all right-hand sides nonnegative, unless it starts from a tableau that oversteps. -/
theorem Feasible.of_stepsTo {eps : F} {direction : Direction} {cost : Vector F L.decision}
    {a b : Snapshot F L} (h0 : 0 < eps) (hf : a.tableau.Feasible) (ha : ¬ a.tableau.Oversteps eps)
    (h : a.StepsTo eps direction cost b) : b.tableau.Feasible := by
  rcases h with (hpivot | hexchange) | hover
  · cases hpivot with
    | intro hc => exact hf.pivot_of_not_oversteps h0 ha hc
  · cases hexchange with
    | intro _ => exact hf.exchange eps _ _
  · cases hover with
    | intro basis => exact Feasible.removeRows hf basis.redundant

end Tableau

namespace Program

variable {p : Program F} {options : Options F}

omit [IsStrictOrderedRing F] in
/-- Bringing a program into tableau form reaches nothing yet. -/
theorem reached_tableau (p : Program F) :
    (p.tableau.mapError (SolveError.inconsistent (E := F))).reached = [] := by
  show p.tableau.reached = []
  rw [tableau]
  split <;> rfl

omit [IsStrictOrderedRing F] in
/-- An accepted program reaches what its two phases reach. -/
theorem reached_solve {t : Tableau F p.layout p.layout.rows} (ht : p.tableau.result = .ok t)
    (h0 : 0 < options.eps) :
    (p.solve options).reached = (t.runPhases options p.direction p.costVector).reached := by
  rw [solve, Journal.reached_bind_of_ok (Journal.result_mapError_eq_ok_iff.2 ht), reached_tableau,
    Tableau.solve, prepare_eq t h0]
  rfl

omit [IsStrictOrderedRing F] in
/-- Any other program reaches nothing. -/
theorem reached_solve_of_error {e : Inconsistency F} (he : p.tableau.result = .error e) :
    (p.solve options).reached = [] := by
  have herror : (p.tableau.mapError (SolveError.inconsistent (E := F))).result = .error (.inconsistent e) := by
    show p.tableau.result.mapError _ = _
    rw [he]
    rfl
  rw [solve, Journal.reached_bind_of_error herror, reached_tableau]

/-- **Feasibility.**  Whatever the positive tolerance, the rule and the limit, no right-hand side of a tableau that
    is reached is negative, as long as no tableau reached before it oversteps. -/
theorem feasible_of_reached (p : Program F) (options : Options F) (h0 : 0 < options.eps)
    {before after : List (Snapshot F p.layout)} {s : Snapshot F p.layout}
    (hs : (p.solve options).reached = before ++ s :: after)
    (hbefore : ∀ u ∈ before, ¬ u.tableau.Oversteps options.eps) : ∀ i, 0 ≤ s.tableau.level i := by
  cases ht : p.tableau.result with
  | error e =>
    rw [reached_solve_of_error ht] at hs
    simp at hs
  | ok t =>
    obtain ⟨l, b, hl, htrail⟩ := t.trail_runPhases options p.direction p.costVector
    rw [← reached_solve ht h0, hs] at hl
    exact htrail.keeps_while (I := fun s => s.tableau.Feasible)
      (fun _ _ hf hgood hstep => hf.of_stepsTo h0 hgood hstep) (fresh ht).feasible_loadArtificial
      hl.symm hbefore

/-- The standard choices, with a tolerance of exactly a billionth. -/
def standardExact : Options ℚ := ⟨1 / 10 ^ 9, none, .dantzigThenBland, 8⟩

/-- A variable up to 1024, and a constraint in which its coefficient is below a billionth. -/
def shallow (bound : ℚ) : Program ℚ where
  direction := .minimize
  cost := [-1]
  constraints := [⟨[1 / 2 ^ 30], .le, bound⟩, ⟨[1], .le, 1024⟩]

/-- The ratio test does not look at the first constraint of `shallow`, but up to a bound of one there is room enough
    for the whole step. -/
theorem feasible_of_reached_shallow :
    ((shallow 1).solve standardExact).reached.length = 3 ∧
      (∀ u ∈ ((shallow 1).solve standardExact).reached, ¬ u.tableau.Oversteps standardExact.eps) ∧
      ∀ s ∈ ((shallow 1).solve standardExact).reached, ∀ i, 0 ≤ s.tableau.level i := by
  have hnone : ∀ u ∈ ((shallow 1).solve standardExact).reached,
      ¬ u.tableau.Oversteps standardExact.eps := by decide +kernel
  refine ⟨by decide +kernel, hnone, ?_⟩
  intro s hs
  obtain ⟨before, after, hsplit⟩ := List.append_of_mem hs
  refine feasible_of_reached (shallow 1) standardExact (by decide +kernel) hsplit ?_
  intro u hu
  refine hnone u ?_
  rw [hsplit]
  exact List.mem_append_left _ hu

/-- With a bound of zero the same step takes the first constraint of `shallow` below zero by far more than the
    tolerance. -/
theorem exists_reached_level_lt_shallow : (shallow 0).tableau.result.isOk = true ∧
    0 < standardExact.eps ∧ ∃ s ∈ ((shallow 0).solve standardExact).reached,
      ∃ i, s.tableau.level i < -standardExact.eps := by
  decide +kernel

end Program

end Simplex
