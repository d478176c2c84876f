/-
  The pivot: exchange a basic column for another one.

  To bring column `j` into the basis in row `i`, row `i` is divided by its entry in column `j`, and the result
  is used to clear column `j` everywhere else, in the objective row too.  Two cells are set rather than
  computed, so that the new basic column is a unit column whatever the rounding: the pivot cell becomes one
  and the cleared cells become zero.

  A right-hand side that ends up below zero by less than the tolerance is taken for a rounding error and set
  to zero (`snap`).  This is done in every other constraint row, and never in the objective row.
-/
import Simplex.Tableau.Basic

namespace Simplex

/-- A right-hand side strictly between `-eps` and zero counts as zero. -/
def Line.snap {F : Type} {n : Nat} [Scalar F] (eps : F) (l : Line F n) : Line F n :=
  if l.rhs < 0 ∧ -eps < l.rhs then { l with rhs := 0 } else l

/-- Only right-hand sides are looked at for rounding errors. -/
@[simp] theorem Line.cell_snap {F : Type} {n : Nat} [Scalar F] (eps : F) (l : Line F n)
    (k : Fin n) : (l.snap eps).cell k = l.cell k := by
  simp only [Line.snap]
  split <;> rfl

namespace Tableau

variable {F : Type} {L : Layout} {m : Nat} [Scalar F]

/-- Row `i` divided by its entry in column `j`, with a one in that column. -/
def pivotLine (t : Tableau F L m) (j : Fin L.columns) (i : Fin m) : Line F L.columns :=
  ((t.row i).line.divide (t.entry i j)).set j 1

/-- Bring column `j` into the basis in row `i`. -/
def pivot (t : Tableau F L m) (eps : F) (j : Fin L.columns) (i : Fin m) : Tableau F L m :=
  let p := t.pivotLine j i
  -- every line is cleared with the row as it is after the division
  { t with
    rows := Vector.ofFn fun k =>
      if k = i then { line := p, basic := j }
      else { t.row k with line := ((t.row k).line.eliminate j p).snap eps }
    objective := t.objective.eliminate j p }

/-- Set the right-hand side of row `i` to zero. -/
def clearLevel (t : Tableau F L m) (i : Fin m) : Tableau F L m :=
  { t with
    rows := t.rows.set i { t.row i with line := { (t.row i).line with rhs := 0 } } i.isLt }

/-! ## What a pivot does to the rows -/

@[simp] theorem row_pivot_self (t : Tableau F L m) (eps : F) (j : Fin L.columns) (i : Fin m) :
    (t.pivot eps j i).row i = { line := t.pivotLine j i, basic := j } := by
  simp [pivot, row, get_eq_getElem]

/-- A pivot changes every other row by one elimination and then looks at its right-hand side. -/
theorem row_pivot_of_ne (t : Tableau F L m) (eps : F) (j : Fin L.columns) {i k : Fin m}
    (h : k ≠ i) : (t.pivot eps j i).row k =
      { t.row k with line := ((t.row k).line.eliminate j (t.pivotLine j i)).snap eps } := by
  simp [pivot, row, get_eq_getElem, h]

@[simp] theorem basic_pivot_self (t : Tableau F L m) (eps : F) (j : Fin L.columns) (i : Fin m) :
    (t.pivot eps j i).basic i = j := by
  rw [basic, row_pivot_self]

/-- All other rows keep their basic columns. -/
theorem basic_pivot_of_ne (t : Tableau F L m) (eps : F) (j : Fin L.columns) {i k : Fin m}
    (h : k ≠ i) : (t.pivot eps j i).basic k = t.basic k := by
  rw [basic, row_pivot_of_ne t eps j h]
  rfl

/-- A basic column after a pivot is the one that entered, or was basic in another row. -/
theorem isBasic_pivot_iff {t : Tableau F L m} {eps : F} {j : Fin L.columns} {i : Fin m} {c : Fin L.columns} :
    (t.pivot eps j i).isBasic c = true ↔ c = j ∨ ∃ r, r ≠ i ∧ t.basic r = c := by
  rw [isBasic_iff]
  constructor
  · rintro ⟨r, rfl⟩
    by_cases hr : r = i
    · rw [hr, basic_pivot_self]
      exact Or.inl rfl
    · rw [basic_pivot_of_ne t eps j hr]
      exact Or.inr ⟨r, hr, rfl⟩
  · rintro (rfl | ⟨r, hr, rfl⟩)
    · exact ⟨i, basic_pivot_self t eps c i⟩
    · exact ⟨r, basic_pivot_of_ne t eps j hr⟩

/-- A column from outside the basis does not become basic in two rows. -/
theorem basic_injective_pivot {t : Tableau F L m} (h : Function.Injective t.basic) (eps : F) {j : Fin L.columns}
    (i : Fin m) (hj : t.isBasic j = false) : Function.Injective (t.pivot eps j i).basic := by
  have hne : ∀ k, t.basic k ≠ j := by
    rintro k rfl
    rw [isBasic_iff.2 ⟨k, rfl⟩] at hj
    cases hj
  intro r k hrk
  by_cases hr : r = i
  · by_cases hk : k = i
    · rw [hr, hk]
    · rw [hr, basic_pivot_self, basic_pivot_of_ne t eps j hk] at hrk
      exact absurd hrk.symm (hne k)
  · by_cases hk : k = i
    · rw [hk, basic_pivot_self, basic_pivot_of_ne t eps j hr] at hrk
      exact absurd hrk (hne r)
    · rw [basic_pivot_of_ne t eps j hr, basic_pivot_of_ne t eps j hk] at hrk
      exact h hrk

/-- Which columns may enter is not changed by pivots. -/
@[simp] theorem eligible_pivot (t : Tableau F L m) (eps : F) (j : Fin L.columns) (i : Fin m) :
    (t.pivot eps j i).eligible = t.eligible := rfl

@[simp] theorem objective_pivot (t : Tableau F L m) (eps : F) (j : Fin L.columns) (i : Fin m) :
    (t.pivot eps j i).objective = t.objective.eliminate j (t.pivotLine j i) := rfl

/-! ## What clearing a right-hand side does to the rows -/

@[simp] theorem row_clearLevel_self (t : Tableau F L m) (i : Fin m) :
    (t.clearLevel i).row i = { t.row i with line := { (t.row i).line with rhs := 0 } } := by
  simp [clearLevel, row, get_eq_getElem]

/-- Setting one level to zero leaves the other rows as they are. -/
theorem row_clearLevel_of_ne (t : Tableau F L m) {i k : Fin m} (h : k ≠ i) :
    (t.clearLevel i).row k = t.row k := by
  have h' : i.val ≠ k.val := fun e => h (Fin.ext e.symm)
  simp [clearLevel, row, get_eq_getElem, h']

@[simp] theorem basic_clearLevel (t : Tableau F L m) (i k : Fin m) :
    (t.clearLevel i).basic k = t.basic k := by
  rw [basic, basic]
  by_cases h : k = i
  · subst h; rw [row_clearLevel_self]
  · rw [row_clearLevel_of_ne t h]

@[simp] theorem entry_clearLevel (t : Tableau F L m) (i k : Fin m) (j : Fin L.columns) :
    (t.clearLevel i).entry k j = t.entry k j := by
  rw [entry, entry]
  by_cases h : k = i
  · subst h; rw [row_clearLevel_self]; rfl
  · rw [row_clearLevel_of_ne t h]

@[simp] theorem isBasic_clearLevel (t : Tableau F L m) (i : Fin m) (j : Fin L.columns) :
    (t.clearLevel i).isBasic j = t.isBasic j := by
  rw [Bool.eq_iff_iff, isBasic_iff, isBasic_iff]
  simp only [basic_clearLevel]

/-- An exchange at level zero keeps basic columns distinct. -/
theorem basic_injective_exchange {t : Tableau F L m} (h : Function.Injective t.basic) (eps : F)
    {j : Fin L.columns} (i : Fin m) (hj : t.isBasic j = false) :
    Function.Injective ((t.clearLevel i).pivot eps j i).basic := by
  refine basic_injective_pivot ?_ eps i ((t.isBasic_clearLevel i j).trans hj)
  intro r k hrk
  rw [basic_clearLevel, basic_clearLevel] at hrk
  exact h hrk

end Tableau

end Simplex
