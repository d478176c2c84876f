/-
  Which column enters the basis.

  A column is profitable if it may enter and its relative cost is below zero by more than the tolerance.

  1. The careful mode (Bland's rule) takes the first profitable column, and on a tie of ratios the row whose
     basic column is lowest.  It can not cycle.
  2. The greedy mode (Dantzig's rule) takes the profitable column with the most negative relative cost, the
     first one of equals, and on a tie of ratios the first row.  It is usually faster, but it can cycle.
  3. A strategy either stays in one mode, or is greedy until so many degenerate pivots came in a row, careful
     from then on, and greedy again after the first pivot that is not degenerate.

  Column choice and tie-break are both functions of the mode, so they can not come from different modes.
-/
import Simplex.Event
import Simplex.Tableau.Ratio

namespace Simplex

/-! ## Modes -/

/-- How a pivot is chosen. -/
inductive Mode where
  /-- The first profitable column. -/
  | careful
  /-- The most profitable column. -/
  | greedy
  deriving DecidableEq, Repr

/-- Which of the rows with the least ratio leaves. -/
def Mode.tieBreak : Mode → TieBreak
  | careful => .lowestBasisColumn
  | greedy => .lowestRow

namespace Tableau

variable {F : Type} {L : Layout} {m : Nat} [Scalar F]

/-- The columns worth entering, from left to right. -/
def profitable (t : Tableau F L m) (eps : F) : List (Fin L.columns) :=
  t.candidates.filter fun j => t.cost j < -eps

/-- The column that enters, if any is worth it. -/
def enteringColumn? (t : Tableau F L m) (eps : F) : Mode → Option (Fin L.columns)
  | .careful => (t.profitable eps).head?
  | .greedy => pick (fun j k => t.cost j < t.cost k) (t.profitable eps)

theorem mem_profitable {t : Tableau F L m} {eps : F} {j : Fin L.columns} :
    j ∈ t.profitable eps ↔ j ∈ t.candidates ∧ t.cost j < -eps := by
  simp [profitable, List.mem_filter]

/-- In either mode the entering column is a profitable one. -/
theorem mem_profitable_of_enteringColumn? {t : Tableau F L m} {eps : F} {mode : Mode}
    {j : Fin L.columns} (h : t.enteringColumn? eps mode = some j) : j ∈ t.profitable eps := by
  cases mode with
  | careful => exact List.mem_of_head? h
  | greedy => exact pick_mem h

/-- In either mode no column enters exactly when none is profitable. -/
theorem enteringColumn?_eq_none_iff {t : Tableau F L m} {eps : F} {mode : Mode} :
    t.enteringColumn? eps mode = none ↔ t.profitable eps = [] := by
  cases mode with
  | careful => exact List.head?_eq_none_iff
  | greedy => exact pick_eq_none_iff

end Tableau

/-! ## Strategies -/

/-- The rule a user asks for. -/
inductive PivotRule where
  | bland
  | dantzig
  | dantzigThenBland
  deriving DecidableEq, Repr

instance : Inhabited PivotRule := ⟨.dantzigThenBland⟩

/-- A rule at work. -/
inductive Strategy where
  /-- Stay in one mode. -/
  | fixed (mode : Mode)
  /-- Be careful after `threshold` degenerate pivots in a row; so far there were `streak`. -/
  | adaptive (threshold streak : Nat)
  deriving DecidableEq, Repr

/-- Begin to work by a rule. -/
def PivotRule.start (threshold : Nat) : PivotRule → Strategy
  | bland => .fixed .careful
  | dantzig => .fixed .greedy
  | dantzigThenBland => .adaptive threshold 0

/-- A pivot is degenerate if the entering variable rises by no more than the tolerance. -/
def isDegenerate {F : Type} [Scalar F] (eps step : F) : Bool := step ≤ eps

namespace Strategy

/-- The mode of the next pivot. -/
def mode : Strategy → Mode
  | fixed mode => mode
  | adaptive threshold streak => if threshold ≤ streak then .careful else .greedy

/-- Has an adaptive strategy turned careful? -/
def isFallingBack? : Strategy → Option Bool
  | fixed _ => none
  | s@(adaptive ..) => some (s.mode = .careful)

/-- The strategy after a pivot. -/
def afterPivot (degenerate : Bool) : Strategy → Strategy
  | fixed mode => fixed mode
  | adaptive threshold streak => adaptive threshold (if degenerate then streak + 1 else 0)

/-- The change of mode that a pivot brought about. -/
def switch {F : Type} {L : Layout} : (before after : Strategy) → List (Event F L)
  | before, adaptive threshold streak =>
    match before.mode, (adaptive threshold streak).mode with
    | .greedy, .careful => [.turnedCareful streak]
    | .careful, .greedy => [.turnedGreedy]
    | _, _ => []
  | _, fixed _ => []

@[simp] theorem mode_fixed (mode : Mode) : (fixed mode).mode = mode := rfl

theorem mode_adaptive_eq_careful_iff {threshold streak : Nat} :
    (adaptive threshold streak).mode = .careful ↔ threshold ≤ streak := by
  show (if threshold ≤ streak then Mode.careful else Mode.greedy) = .careful ↔ _
  by_cases h : threshold ≤ streak
  · rw [if_pos h]; exact ⟨fun _ => h, fun _ => rfl⟩
  · rw [if_neg h]; exact ⟨fun h' => (nomatch h'), fun h' => absurd h' h⟩

/-- A change of mode is one event, if there is one. -/
theorem switch_cases {F : Type} {L : Layout} (before after : Strategy) :
    (before.switch after : List (Event F L)) = [] ∨
      (∃ streak, (before.switch after : List (Event F L)) = [.turnedCareful streak]) ∨
      (before.switch after : List (Event F L)) = [.turnedGreedy] := by
  unfold switch
  split
  · split
    · exact Or.inr (Or.inl ⟨_, rfl⟩)
    · exact Or.inr (Or.inr rfl)
    · exact Or.inl rfl
  · exact Or.inl rfl

/-- A strategy that stays in one mode is not moved by pivots. -/
theorem afterPivot_fixed (degenerate : Bool) (mode : Mode) :
    (fixed mode).afterPivot degenerate = fixed mode := rfl

end Strategy

example : (PivotRule.dantzigThenBland.start 1).mode = .greedy := by decide
example : ((PivotRule.dantzigThenBland.start 1).afterPivot true).mode = .careful := by decide
example : (PivotRule.dantzigThenBland.start 0).mode = .careful := by decide    -- careful from the start

end Simplex
