/-
  The tableau of an outcome shows why its verdict was given.

  A run answers with a verdict and the tableau in which it ended.  What was compared on the way was compared in that
  very tableau, with the numbers as they were, so it can be looked up there whatever the rounding.

  1. `Outcome.Shows` — what there is to see: no profitable column beside an optimum, whose point and value can be read
     off; a profitable column without a limit beside an unbounded objective; an artificial cost above the tolerance that
     no column lowers, and no pivot of the second phase, beside a contradiction.
  2. `shows_of_runPhases` — both phases end with an outcome that shows it.  The point is read from the buffer in which
     the solution is written down again and again, and that buffer is up to date.
  3. `shows_of_solve` — every outcome shows it, and the buffer has the basic solution of that tableau in the end.
-/
import Simplex.Proofs.Contract

namespace Simplex

variable {F E : Type} {L : Layout} {m : Nat} [Scalar F]

/-- What the tableau of an outcome has to show for its verdict. -/
def Outcome.Shows (o : Outcome F L) (eps : F) (direction : Direction) : Prop :=
  match o.verdict with
  | .optimal s =>
    s.point = o.final.tableau.basicSolution.toList.take L.decision ∧
    s.value = direction.orient o.final.tableau.value ∧
    ∀ j ∈ o.final.tableau.candidates, ¬ o.final.tableau.cost j < -eps
  | .unbounded =>
    ∃ j ∈ o.final.tableau.candidates, o.final.tableau.cost j < -eps ∧ ∀ i, ¬ eps < o.final.tableau.entry i j
  | .infeasible =>
    eps < o.final.tableau.value ∧ (∀ j ∈ o.final.tableau.candidates, ¬ o.final.tableau.cost j < -eps) ∧
    o.pivots.phaseTwo = 0

namespace Tableau

theorem not_cost_lt_of_profitable_eq_nil {t : Tableau F L m} {eps : F} (h : t.profitable eps = []) :
    ∀ j ∈ t.candidates, ¬ t.cost j < -eps := by
  intro j hj hcost
  have hmem := mem_profitable.2 ⟨hj, hcost⟩
  rw [h] at hmem
  cases hmem

variable [Tolerance F E] {options : Options E} {t : Tableau F L L.rows}

/-- The first phase finds a contradiction only in a tableau that shows it. -/
theorem of_findFeasible_infeasible {x : Vector F L.columns} {final : Tableau F L L.rows} {pivots : Nat}
    (hf : (t.findFeasible options x).result = .ok (.infeasible final pivots)) :
    (Tolerance.read options.eps : F) < final.value ∧ final.profitable (Tolerance.read options.eps) = [] := by
  obtain ⟨d, hd, hstatus, ⟨hvalue, hinfeasible⟩ | ⟨-, out, -, hfeasible⟩⟩ := findFeasible_eq_ok hf
  · cases hinfeasible
    have hended := ended_of_descend hd
    rw [Descent.Ended, hstatus] at hended
    exact ⟨hvalue, hended⟩
  · cases hfeasible

/-- The verdict is read off the end of a descent, the point of an optimum from the buffer. -/
theorem shows_of_runPhases (h : Function.Injective t.basic) {direction : Direction} {cost : Vector F L.decision}
    {o : Outcome F L} (ho : (t.runPhases options direction cost).result = .ok o) :
    o.Shows (Tolerance.read options.eps) direction := by
  obtain ⟨final, pivots, hf, rfl⟩ | ⟨basis, d, hf, hd, rfl⟩ := runPhases_eq_ok ho
  · obtain ⟨hvalue, hnone⟩ := of_findFeasible_infeasible hf
    exact ⟨hvalue, not_cost_lt_of_profitable_eq_nil hnone, rfl⟩
  · have hended := ended_of_descend hd
    have hloaded : Function.Injective (basis.tableau.loadCost direction cost).basic :=
      basic_injective_of_findFeasible h hf
    obtain ⟨-, hvalues⟩ := values_of_descend hloaded hd
    obtain ⟨status, reached, values, count⟩ := d
    cases status with
    | optimal =>
      refine ⟨?_, rfl, not_cost_lt_of_profitable_eq_nil hended⟩
      exact congrArg (·.toList.take L.decision) hvalues
    | unbounded j =>
      obtain ⟨hj, hlimit⟩ := hended
      obtain ⟨hcandidate, hcost⟩ := mem_profitable.1 hj
      exact ⟨j, hcandidate, hcost, hlimit⟩

/-- **The tableau shows the verdict.**  Whatever the numbers, if a run from an accepted tableau ends with an outcome,
    its tableau shows why the verdict was given.  The buffer that is rewritten along the run holds the basic solution of
    that tableau in the end, whatever it is taken to hold at the start, and the point of an optimum is its first
    part. -/
theorem shows_of_solve {rows : List (List F)} {levels : List F} (ht : ofRows L rows levels = .ok t)
    {direction : Direction} {cost : List F} {o : Outcome F L}
    (ho : (t.solve options direction cost).result = .ok o) (buffer : Vector F L.columns) :
    o.Shows (Tolerance.read options.eps) direction ∧
    ((t.solve options direction cost).events.foldl Standing.advance (.start t buffer)).buffer =
      o.final.tableau.basicSolution ∧
    ∀ s, o.verdict = .optimal s → s.point =
      ((t.solve options direction cost).events.foldl Standing.advance (.start t buffer)).buffer.toList.take
        L.decision := by
  have hend := (meets_solve ht options direction cost buffer).2 o ho
  have hbuffer : ((t.solve options direction cost).events.foldl Standing.advance (.start t buffer)).buffer =
      o.final.tableau.basicSolution := by
    rw [hend.final]
    exact hend.buffer
  have hshows : o.Shows (Tolerance.read options.eps) direction := by
    obtain ⟨c, -, hrun⟩ := Journal.result_bind_eq_ok_iff.1 ho
    exact shows_of_runPhases (basic_injective_ofRows ht) hrun
  refine ⟨hshows, hbuffer, fun s hs => ?_⟩
  rw [hbuffer]
  rw [Outcome.Shows, hs] at hshows
  exact hshows.1

/-- In `repeated` a row is removed before the second phase, which makes one more pivot. -/
theorem shows_of_solve_repeated :
    ofRows ⟨2, 0, 0, 2⟩ [[1, 1, 1, 0], [1, 1, 0, 1]] [2, 2] = .ok repeated ∧
    ∃ o s, (repeated.solve (⟨1/8, none, .dantzig, 0⟩ : Options ℚ) .minimize [1, 0]).result = .ok o ∧
      o.verdict = .optimal s ∧ o.final.rows = 1 ∧ o.pivots = ⟨1, 1⟩ ∧ s.point = [0, 2] ∧
      o.Shows (1/8) .minimize ∧
      s.point = ((repeated.solve (⟨1/8, none, .dantzig, 0⟩ : Options ℚ) .minimize [1, 0]).events.foldl
        Standing.advance (.start repeated (Vector.replicate _ 7))).buffer.toList.take 2 := by
  obtain ⟨o, s, ho, hs, htest⟩ := exists_of_endsOptimal (by decide +kernel :
    endsOptimal (repeated.solve (⟨1/8, none, .dantzig, 0⟩ : Options ℚ) .minimize [1, 0]).result
      (fun o s => decide (o.final.rows = 1 ∧ o.pivots = ⟨1, 1⟩ ∧ s.point = [0, 2])) = true)
  obtain ⟨hrows, hpivots, hpoint⟩ := of_decide_eq_true htest
  obtain ⟨hshows, -, hbuffer⟩ := shows_of_solve ofRows_repeated ho (Vector.replicate _ 7)
  exact ⟨ofRows_repeated, o, s, ho, hs, hrows, hpivots, hpoint, hshows, hbuffer s hs⟩

end Tableau

end Simplex
