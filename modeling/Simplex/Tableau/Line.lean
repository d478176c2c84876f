/-
  One line of a tableau: a coefficient per column and a right-hand side.

  Constraint rows and the objective row are lines, and all arithmetic of the simplex method is arithmetic on
  lines:

  1. `divide` — divide every cell;
  2. `subtract` — take away a multiple of another line, cell by cell;
  3. `eliminate` — take away the multiple that clears a column.  The cleared cell is set to zero instead of
     being computed, and a line whose cell is zero already is left as it is.

  Each operation comes with the equations of its cells, after which nobody needs to unfold it.
-/
import Simplex.Scalar

namespace Simplex

/-- Looking up a `Fin` and looking up its value are the same. -/
theorem get_eq_getElem {α : Type} {n : Nat} (v : Vector α n) (j : Fin n) : v.get j = v[j.val] := rfl

/-- Coefficients for `n` columns and a right-hand side. -/
structure Line (F : Type) (n : Nat) where
  coeff : Vector F n
  rhs : F

namespace Line

variable {F : Type} {n : Nat}

/-- The coefficient of column `j`. -/
def cell (l : Line F n) (j : Fin n) : F := l.coeff.get j

/-- All cells in order, the right-hand side last. -/
def cells (l : Line F n) : List F := l.coeff.toList ++ [l.rhs]

@[simp] theorem length_cells (l : Line F n) : l.cells.length = n + 1 := by
  rw [cells, List.length_append, Vector.length_toList, List.length_singleton]

/-- The cells of a line come in the order of its columns. -/
theorem getElem?_cells (l : Line F n) (j : Fin n) : l.cells[j.val]? = some (l.cell j) := by
  have hlt : j.val < l.coeff.toList.length := by
    rw [Vector.length_toList]
    exact j.isLt
  rw [cells, List.getElem?_append_left hlt, List.getElem?_eq_getElem hlt]
  simp [cell, get_eq_getElem]

/-- Replace the coefficient of column `j`. -/
def set (l : Line F n) (j : Fin n) (x : F) : Line F n := { l with coeff := l.coeff.set j x }

variable [Scalar F]

/-- The line without any content. -/
def zero : Line F n := ⟨Vector.replicate n 0, 0⟩

/-- Divide every cell by `p`. -/
def divide (l : Line F n) (p : F) : Line F n := ⟨l.coeff.map (· / p), l.rhs / p⟩

/-- Take `factor` times the line `p` away. -/
def subtract (l : Line F n) (factor : F) (p : Line F n) : Line F n :=
  ⟨l.coeff.zipWith (fun a b => a - factor * b) p.coeff, l.rhs - factor * p.rhs⟩

/-- Clear column `j` with the help of a line that has a one there. -/
def eliminate (l : Line F n) (j : Fin n) (p : Line F n) : Line F n :=
  let factor := l.cell j
  if factor != 0 then (l.subtract factor p).set j 0 else l

/-! ## Cell by cell -/

omit [Scalar F] in
@[simp] theorem cell_set_self (l : Line F n) (j : Fin n) (x : F) : (l.set j x).cell j = x := by
  simp [set, cell, get_eq_getElem]

omit [Scalar F] in
/-- Setting a cell leaves the others as they are. -/
theorem cell_set_of_ne (l : Line F n) {j k : Fin n} (x : F) (h : k ≠ j) :
    (l.set j x).cell k = l.cell k := by
  have h' : j.val ≠ k.val := fun e => h (Fin.ext e.symm)
  simp [set, cell, get_eq_getElem, h']

omit [Scalar F] in
@[simp] theorem rhs_set (l : Line F n) (j : Fin n) (x : F) : (l.set j x).rhs = l.rhs := rfl

@[simp] theorem cell_zero (k : Fin n) : (zero : Line F n).cell k = 0 := by
  simp [zero, cell, get_eq_getElem]

@[simp] theorem rhs_zero : (zero : Line F n).rhs = 0 := rfl

/-- Dividing a line divides each cell. -/
@[simp] theorem cell_divide (l : Line F n) (p : F) (k : Fin n) :
    (l.divide p).cell k = l.cell k / p := by
  simp [divide, cell, get_eq_getElem]

@[simp] theorem rhs_divide (l : Line F n) (p : F) : (l.divide p).rhs = l.rhs / p := rfl

/-- Subtracting a multiple of a line subtracts it cell by cell. -/
@[simp] theorem cell_subtract (l : Line F n) (factor : F) (p : Line F n) (k : Fin n) :
    (l.subtract factor p).cell k = l.cell k - factor * p.cell k := by
  simp [subtract, cell, get_eq_getElem]

@[simp] theorem rhs_subtract (l : Line F n) (factor : F) (p : Line F n) :
    (l.subtract factor p).rhs = l.rhs - factor * p.rhs := rfl

/-- A line that has a zero in the column is left alone. -/
theorem eliminate_of_not_bne {l : Line F n} {j : Fin n} (p : Line F n)
    (h : (l.cell j != 0) = false) : l.eliminate j p = l := by
  simp only [eliminate]
  rw [if_neg]
  simp only [h, Bool.false_eq_true, not_false_eq_true]

/-- Any other line loses a multiple and has a zero in the column after it. -/
theorem eliminate_of_bne {l : Line F n} {j : Fin n} (p : Line F n)
    (h : (l.cell j != 0) = true) : l.eliminate j p = (l.subtract (l.cell j) p).set j 0 := by
  simp only [eliminate]
  rw [if_pos h]

end Line

end Simplex
