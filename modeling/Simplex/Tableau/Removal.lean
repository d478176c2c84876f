/-
  Removing rows from a tableau.

  The rows that stay keep their order, their cells and their basic columns; the objective row and the
  eligibility of columns are not touched.
-/
import Simplex.Tableau.Basic

namespace Simplex.Tableau

variable {F : Type} {L : Layout} {m : Nat}

/-- The rows that are not removed, in order. -/
def survivors (removed : List (Fin m)) : List (Fin m) :=
  (List.finRange m).filter fun i => !removed.contains i

/-- The tableau without the given rows. -/
def removeRows (t : Tableau F L m) (removed : List (Fin m)) :
    Tableau F L (survivors removed).length :=
  { t with
    rows := ⟨((survivors removed).map t.row).toArray, by simp⟩ }

theorem mem_survivors {removed : List (Fin m)} {i : Fin m} :
    i ∈ survivors removed ↔ i ∉ removed := by
  simp [survivors, List.mem_filter, List.mem_finRange]

/-- A row that is not removed is one of those left. -/
theorem exists_get_survivors {removed : List (Fin m)} {i : Fin m} (h : i ∉ removed) :
    ∃ k, (survivors removed).get k = i :=
  List.mem_iff_get.1 (mem_survivors.2 h)

/-- The `k`-th row that is left is the `k`-th survivor. -/
theorem row_removeRows (t : Tableau F L m) (removed : List (Fin m))
    (k : Fin (survivors removed).length) :
    (t.removeRows removed).row k = t.row ((survivors removed).get k) := by
  simp [removeRows, row, get_eq_getElem]

theorem basic_removeRows (t : Tableau F L m) (removed : List (Fin m)) (k : Fin (survivors removed).length) :
    (t.removeRows removed).basic k = t.basic ((survivors removed).get k) := by
  rw [basic, row_removeRows]
  rfl

theorem basis_removeRows (t : Tableau F L m) (removed : List (Fin m)) :
    (t.removeRows removed).basis = (survivors removed).map t.basic :=
  List.map_map

theorem level_removeRows (t : Tableau F L m) (removed : List (Fin m)) (k : Fin (survivors removed).length) :
    (t.removeRows removed).level k = t.level ((survivors removed).get k) := by
  rw [level, row_removeRows]
  rfl

end Simplex.Tableau
