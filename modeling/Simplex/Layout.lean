/-
  Where the variables and constraints of a tableau stand.

  A layout is four counts: decision variables, and constraints of each relation.  They fix everything about
  rows and columns that does not depend on coefficients.

  * Columns, from left to right: decision variables, one slack per `<=` row, one surplus per `>=` row, one
    artificial per `>=` or `=` row.
  * Rows, from top to bottom: the `<=` rows, the `>=` rows, the `=` rows.
  * Before any pivot, the basis is the slack of each `<=` row and the artificial of every other row.

  `kind` and `place` read a column off its index, `startOf` and `countOf` say which indices a kind has, and the lemmas
  `startOf_add_place`, `place_lt`, `kind_startOf_add` and `place_startOf_add` say that the two agree.
-/
import Simplex.Relation
import Simplex.Decimal.Positional

namespace Simplex

/-! ## Kinds of columns -/

/-- What the variable of a column is for. -/
inductive ColumnKind where
  | decision
  | slack
  | surplus
  | artificial
  deriving DecidableEq, Repr

/-- The letter in front of a variable's number. -/
def ColumnKind.letter : ColumnKind → Char
  | decision => 'x'
  | slack => 's'
  | surplus => 'e'
  | artificial => 'a'

/-- A run of consecutive indices, `first` included and `limit` not. -/
structure Span where
  first : Nat
  limit : Nat
  deriving DecidableEq, Repr

instance : Membership Nat Span := ⟨fun s i => s.first ≤ i ∧ i < s.limit⟩

instance (s : Span) (i : Nat) : Decidable (i ∈ s) :=
  inferInstanceAs (Decidable (s.first ≤ i ∧ i < s.limit))

/-! ## Counts -/

/-- The number of decision variables and of constraints of each relation. -/
structure Layout where
  decision : Nat
  less : Nat
  greater : Nat
  equal : Nat
  deriving DecidableEq, Repr

namespace Layout

variable (L : Layout)

/-- One row per constraint. -/
def rows : Nat := L.less + L.greater + L.equal

/-- One artificial variable per row without a slack. -/
def artificials : Nat := L.greater + L.equal

/-- One column per variable: a `>=` row has a surplus and an artificial. -/
def columns : Nat := L.decision + L.less + 2 * L.greater + L.equal

/-! ## Rows -/

/-- The rows of the constraints with the given relation. -/
def rowsOf : Relation → Span
  | .le => ⟨0, L.less⟩
  | .ge => ⟨L.less, L.less + L.greater⟩
  | .eq => ⟨L.less + L.greater, L.rows⟩

/-- The rows that start with an artificial variable in the basis. -/
def artificialRows : Span := ⟨L.less, L.rows⟩

/-! ## Columns -/

/-- The first column of a kind. -/
def startOf : ColumnKind → Nat
  | .decision => 0
  | .slack => L.decision
  | .surplus => L.decision + L.less
  | .artificial => L.decision + L.less + L.greater

/-- How many columns are of a kind. -/
def countOf : ColumnKind → Nat
  | .decision => L.decision
  | .slack => L.less
  | .surplus => L.greater
  | .artificial => L.artificials

/-- The columns of the artificial variables. -/
def artificialColumns : Span := ⟨L.columns - L.artificials, L.columns⟩

/-- The kind of column `j`: the last kind that starts at or before it. -/
def kind (j : Nat) : ColumnKind :=
  if L.startOf .artificial ≤ j then .artificial
  else if L.startOf .surplus ≤ j then .surplus
  else if L.startOf .slack ≤ j then .slack
  else .decision

/-- Is column `j` that of an artificial variable? -/
def isArtificial (j : Nat) : Bool := L.kind j == .artificial

/-- The place of column `j` among those of its kind, from zero. -/
def place (j : Nat) : Nat := j - L.startOf (L.kind j)

/-- The name of the variable of column `j`: a letter for its kind and its number, from one. -/
def label (j : Nat) : String := String.ofList ((L.kind j).letter :: Decimal.digits (L.place j + 1))

/-! ## The basis before any pivot -/

/-- The column that is basic in row `i` at first. -/
def initialColumn (i : Nat) : Nat :=
  if i < L.less then L.startOf .slack + i else L.startOf .artificial + (i - L.less)

/-- The surplus column of row `i`, which only a `>=` row has. -/
def surplusColumn? (i : Nat) : Option Nat :=
  if i ∈ L.rowsOf .ge then some (L.startOf .surplus + (i - L.less)) else none

/-! ## Everything is in range -/

theorem initialColumn_lt {i : Nat} (h : i < L.rows) : L.initialColumn i < L.columns := by
  simp only [rows] at h
  simp only [initialColumn, startOf, columns]
  split <;> omega

theorem decision_le_columns : L.decision ≤ L.columns := by
  simp only [columns]; omega

/-- A column is the start of its kind plus its place. -/
theorem startOf_add_place (j : Nat) : L.startOf (L.kind j) + L.place j = j := by
  simp only [place, kind]
  split
  · omega
  · split
    · omega
    · split
      · omega
      · simp [startOf]

/-- The place of a column is below the number of columns of its kind. -/
theorem place_lt {j : Nat} (h : j < L.columns) : L.place j < L.countOf (L.kind j) := by
  simp only [columns] at h
  by_cases ha : L.decision + L.less + L.greater ≤ j
  · have hk : L.kind j = .artificial := if_pos ha
    simp only [place, hk, startOf, countOf, artificials]; omega
  · by_cases hs : L.decision + L.less ≤ j
    · have hk : L.kind j = .surplus := (if_neg ha).trans (if_pos hs)
      simp only [place, hk, startOf, countOf]; omega
    · by_cases hl : L.decision ≤ j
      · have hk : L.kind j = .slack := (if_neg ha).trans ((if_neg hs).trans (if_pos hl))
        simp only [place, hk, startOf, countOf]; omega
      · have hk : L.kind j = .decision := (if_neg ha).trans ((if_neg hs).trans (if_neg hl))
        simp only [place, hk, startOf, countOf]; omega

/-- Artificial columns are the last ones. -/
theorem isArtificial_iff {j : Nat} : L.isArtificial j = true ↔ L.startOf .artificial ≤ j := by
  simp only [isArtificial, kind, beq_iff_eq]
  constructor
  · intro h
    by_cases hj : L.startOf .artificial ≤ j
    · exact hj
    · rw [if_neg hj] at h
      split at h
      · cases h
      · split at h <;> cases h
  · intro h; rw [if_pos h]

/-- The artificial columns of the layout are the columns of that kind. -/
theorem mem_artificialColumns_iff {j : Nat} :
    j ∈ L.artificialColumns ↔ j < L.columns ∧ L.isArtificial j = true := by
  have hfirst : L.columns - L.artificials = L.startOf .artificial := by
    simp only [columns, artificials, startOf]
    omega
  rw [isArtificial_iff, ← hfirst]
  exact And.comm

/-- The columns of a kind are of that kind, also where a kind without columns starts at the same column. -/
theorem kind_startOf_add {k : ColumnKind} {n : Nat} (h : n < L.countOf k) : L.kind (L.startOf k + n) = k := by
  cases k with
  | decision =>
    simp only [countOf] at h
    rw [kind, if_neg, if_neg, if_neg] <;> simp only [startOf] <;> omega
  | slack =>
    simp only [countOf] at h
    rw [kind, if_neg, if_neg, if_pos] <;> simp only [startOf] <;> omega
  | surplus =>
    simp only [countOf] at h
    rw [kind, if_neg, if_pos] <;> simp only [startOf] <;> omega
  | artificial =>
    rw [kind, if_pos (Nat.le_add_right ..)]

theorem place_startOf_add {k : ColumnKind} {n : Nat} (h : n < L.countOf k) : L.place (L.startOf k + n) = n := by
  rw [place, L.kind_startOf_add h, Nat.add_sub_cancel_left]

/-- The column that is basic in a row at first, as a column index. -/
def basisColumn (i : Fin L.rows) : Fin L.columns := ⟨L.initialColumn i, L.initialColumn_lt i.isLt⟩

end Layout

example : (Layout.mk 2 1 2 1).label 4 = "e2" := by decide
example : (List.range 8).map (Layout.mk 2 1 2 1).kind =
    [.decision, .decision, .slack, .surplus, .surplus, .artificial, .artificial, .artificial] := by
  decide
example : (List.range 4).map (Layout.mk 2 1 2 1).initialColumn = [2, 5, 6, 7] := by decide

end Simplex
