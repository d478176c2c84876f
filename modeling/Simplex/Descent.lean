/-
  Pivoting as long as the objective improves.

  Both phases run the same loop: choose a column and a row, pivot, tell the strategy how far the step went, and
  go on.  The loop ends in one of three ways:

  1. no column is profitable — the basis is optimal;
  2. no row limits the chosen column — the objective falls without end along it;
  3. a pivot is possible but the allowed number of pivots is used up — an error.

  Beside the tableau a run has a buffer with a value for every column.  It is rewritten when the loop starts and after
  every pivot, so when the loop ends the solution can be read from it.

  The number of pivots that are left is what the recursion runs on, so it is structural and needs no further
  bound.
-/
import Simplex.Journal
import Simplex.Options
import Simplex.Tableau.Pivot

namespace Simplex

/-- How the loop ended without an error. -/
inductive Status (L : Layout) where
  | optimal
  | unbounded (column : Fin L.columns)

/-- Where the loop ended, what the buffer held then, and after how many pivots in all. -/
structure Descent (F : Type) (L : Layout) (m : Nat) where
  status : Status L
  tableau : Tableau F L m
  values : Vector F L.columns
  pivots : Nat

variable {F E : Type} {L : Layout} {m : Nat} [Scalar F]

/-- Pivot until the objective can not be improved; `left` more pivots are allowed, `pivots` were made, and `x` is the
    buffer for the solution. -/
def Tableau.descend (phase : Phase) (eps : F) (left pivots : Nat) (s : Strategy) (x : Vector F L.columns)
    (t : Tableau F L m) : Journal (Event F L) (SolveError F E) (Descent F L m) := do
  let x := t.writeSolution x
  .note (.written x)
  match t.enteringColumn? eps s.mode with
  | none => pure ⟨.optimal, t, x, pivots⟩
  | some j =>
    match t.leavingRow? eps s.mode.tieBreak j with
    | none => do
      .note (.unlimited phase j (t.cost j))
      pure ⟨.unbounded j, t, x, pivots⟩
    | some i =>
      -- only a pivot that is wanted can be refused
      match left with
      | 0 => do
        .note (.stopped phase pivots)
        .fail (.pivotLimit phase pivots)
      | left + 1 => do
        let reached := t.pivot eps j i
        let s' := s.afterPivot (isDegenerate eps (t.ratio j i))
        .notes (s.switch s')
        .note (.pivoted phase (pivots + 1) j i (t.basic i) reached.value ⟨m, reached⟩)
        reached.descend phase eps left (pivots + 1) s' x

end Simplex
