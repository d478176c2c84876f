/-
  Loading an objective into a tableau.

  Both objectives are first written down as plain costs and then brought into a form in which basic columns
  have relative cost zero:

  1. the artificial cost asks for one unit per artificial variable.  While the artificial variables are still
     basic in their own rows, it is enough to take those rows away once;
  2. the cost of the program is reduced row by row: the multiple of each row that clears its basic column is
     taken away.  Artificial columns are shut out at the same time.
-/
import Simplex.Tableau.Basic

namespace Simplex.Tableau

variable {F : Type} {L : Layout} {m : Nat} [Scalar F]

/-! ## The artificial cost -/

/-- One on artificial columns and zero elsewhere. -/
def artificialCost : Line F L.columns :=
  ⟨Vector.ofFn fun j => if L.isArtificial j then 1 else 0, 0⟩

/-- The rows that start with an artificial basic variable. -/
def artificialRows (L : Layout) (m : Nat) : List (Fin m) :=
  (List.finRange m).filter fun i => L.less ≤ i.val

/-- Make the sum of the artificial variables the objective, expecting each of them to be basic in its own
    row. -/
def loadArtificial (t : Tableau F L m) : Tableau F L m :=
  { t with
    objective := (artificialRows L m).foldl
      (fun line i => line.subtract 1 (t.row i).line) artificialCost }

/-! ## The cost of a program -/

/-- The costs on decision columns, negated for a maximum, and zero elsewhere. -/
def decisionCost (direction : Direction) (cost : Vector F L.decision) : Line F L.columns :=
  ⟨Vector.ofFn fun j => if h : j.val < L.decision then direction.orient (cost.get ⟨j, h⟩) else 0, 0⟩

/-- Express a line in terms of the variables that are not basic. -/
def reduce (t : Tableau F L m) (line : Line F L.columns) : Line F L.columns :=
  t.rows.toList.foldl (fun line row => line.eliminate row.basic row.line) line

/-- Make the cost of a program the objective, and shut artificial columns out of the basis. -/
def loadCost (t : Tableau F L m) (direction : Direction) (cost : Vector F L.decision) :
    Tableau F L m :=
  { t with
    objective := t.reduce (decisionCost direction cost)
    eligible := Vector.ofFn fun j => t.isEligible j && !L.isArtificial j }

@[simp] theorem rows_loadArtificial (t : Tableau F L m) : t.loadArtificial.rows = t.rows := rfl

@[simp] theorem rows_loadCost (t : Tableau F L m) (direction : Direction)
    (cost : Vector F L.decision) : (t.loadCost direction cost).rows = t.rows := rfl

@[simp] theorem isEligible_loadCost (t : Tableau F L m) (direction : Direction) (cost : Vector F L.decision)
    (j : Fin L.columns) :
    (t.loadCost direction cost).isEligible j = (t.isEligible j && !L.isArtificial j) := by
  simp [loadCost, isEligible, get_eq_getElem]

end Simplex.Tableau
