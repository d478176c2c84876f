/-
  The ratio test: which row gives way to an entering column.

  Raising the variable of column `j` lowers the basic variable of each row with a positive entry; the row where
  it reaches zero first, the one with the least ratio of right-hand side and entry, is the one to leave.
  Entries up to the tolerance are not trusted.  Between rows with exactly the same ratio the tie-break decides:
  the first row, or the row whose basic column is lowest.
-/
import Simplex.Pick
import Simplex.Tableau.Basic

namespace Simplex

/-- Which of the rows with the least ratio leaves. -/
inductive TieBreak where
  | lowestRow
  | lowestBasisColumn
  deriving DecidableEq, Repr

namespace Tableau

variable {F : Type} {L : Layout} {m : Nat} [Scalar F]

/-- The rows that limit how far column `j` can rise. -/
def blocking (t : Tableau F L m) (eps : F) (j : Fin L.columns) : List (Fin m) :=
  (List.finRange m).filter fun i => eps < t.entry i j

/-- How far column `j` can rise before the basic variable of row `i` is zero. -/
def ratio (t : Tableau F L m) (j : Fin L.columns) (i : Fin m) : F := t.level i / t.entry i j

/-- Should row `i` leave rather than row `k`? -/
def leavesBefore (t : Tableau F L m) (tie : TieBreak) (j : Fin L.columns) (i k : Fin m) : Bool :=
  t.ratio j i < t.ratio j k ||
    (t.ratio j i == t.ratio j k && tie == .lowestBasisColumn && t.basic i < t.basic k)

/-- The row that leaves when column `j` enters, if any row limits it. -/
def leavingRow? (t : Tableau F L m) (eps : F) (tie : TieBreak) (j : Fin L.columns) :
    Option (Fin m) :=
  pick (t.leavesBefore tie j) (t.blocking eps j)

theorem mem_blocking {t : Tableau F L m} {eps : F} {j : Fin L.columns} {i : Fin m} :
    i ∈ t.blocking eps j ↔ eps < t.entry i j := by
  simp [blocking, List.mem_filter, List.mem_finRange]

/-- The leaving row has an entry above the tolerance. -/
theorem lt_entry_of_leavingRow? {t : Tableau F L m} {eps : F} {tie : TieBreak}
    {j : Fin L.columns} {i : Fin m} (h : t.leavingRow? eps tie j = some i) : eps < t.entry i j :=
  mem_blocking.1 (pick_mem h)

/-- No row leaves exactly when no entry is above the tolerance. -/
theorem leavingRow?_eq_none_iff {t : Tableau F L m} {eps : F} {tie : TieBreak}
    {j : Fin L.columns} : t.leavingRow? eps tie j = none ↔ ∀ i, ¬ eps < t.entry i j := by
  rw [leavingRow?, pick_eq_none_iff, List.eq_nil_iff_forall_not_mem]
  exact ⟨fun h i hi => h i (mem_blocking.2 hi), fun h i hi => h i (mem_blocking.1 hi)⟩

end Tableau

end Simplex
