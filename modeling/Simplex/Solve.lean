/-
  Solving a program or a tableau in two phases.

  `Tableau.solve` checks the options and the cost vector, looks for a feasible basis, and improves it with the
  cost of the program.  `Program.solve` does the same from the first tableau of a program.

  An outcome says what was found, how many pivots each phase took, and the tableau in which it can be seen: the
  optimal or unbounded one, or the one in which the artificial variables are as small as they can be.
-/
import Simplex.Feasibility
import Simplex.StandardForm

namespace Simplex

/-! ## Outcomes -/

/-- What a program turned out to be. -/
inductive Verdict (F : Type) where
  | infeasible
  | optimal (solution : Solution F)
  | unbounded

/-- How many pivots each phase took. -/
structure PivotCount where
  phaseOne : Nat
  phaseTwo : Nat
  deriving DecidableEq, Repr

/-- Both phases together. -/
def PivotCount.total (n : PivotCount) : Nat := n.phaseOne + n.phaseTwo

/-- The end of a run. -/
structure Outcome (F : Type) (L : Layout) where
  verdict : Verdict F
  pivots : PivotCount
  final : Snapshot F L

variable {F E : Type} {L : Layout} {m : Nat} [Scalar F]

/-! ## The second phase -/

/-- What is read off the end of a descent: the decision variables as the buffer has them, and the value of the
    objective. -/
def Descent.solution (d : Descent F L m) (direction : Direction) : Solution F :=
  ⟨direction.orient d.tableau.value, d.values.toList.take L.decision⟩

namespace Tableau

/-- Improve a feasible basis as far as possible; `x` is the buffer for the solution. -/
def improve [Tolerance F E] (options : Options E) (direction : Direction) (cost : Vector F L.decision) (pivots : Nat)
    (x : Vector F L.columns) (t : Tableau F L m) :
    Journal (Event F L) (SolveError F E) (Outcome F L) := do
  let loaded := t.loadCost direction cost
  .note (.costLoaded (direction.orient loaded.value) ⟨m, loaded⟩)
  let d ← loaded.descend .two (Tolerance.read options.eps) (options.limit - pivots) pivots
    options.strategy x
  let verdict ← match d.status with
    | .optimal => do
      .note (.optimal (direction.orient d.tableau.value))
      pure (.optimal (d.solution direction))
    | .unbounded j => do
      .note (.unbounded j)
      pure .unbounded
  .note (.done d.pivots)
  pure ⟨verdict, ⟨pivots, d.pivots - pivots⟩, ⟨m, d.tableau⟩⟩

/-! ## Both phases -/

/-- The cost vector, if it is as long as there are decision variables and finite. -/
def checkCost (L : Layout) (cost : List F) : Except (Inconsistency F) (Vector F L.decision) :=
  if h : cost.length = L.decision then
    match costFault? cost with
    | some cause => .error cause
    | none => .ok ⟨cost.toArray, h⟩
  else .error (.costCount cost.length L.decision)

/-- Check the options and the cost vector, and announce the run. -/
def prepare [Tolerance F E] (options : Options E) (cost : List F) (_ : Tableau F L m) :
    Journal (Event F L) (SolveError F E) (Vector F L.decision) := do
  .ofExcept (options.check F)
  let cost ← .ofExcept ((checkCost L cost).mapError .inconsistent)
  .note (.solving m)
  pure cost

/-- Find a feasible basis and improve it.  Both phases use one buffer for the solution. -/
def runPhases [Tolerance F E] (options : Options E) (direction : Direction)
    (cost : Vector F L.decision) (t : Tableau F L L.rows) :
    Journal (Event F L) (SolveError F E) (Outcome F L) := do
  match ← t.findFeasible options (Vector.replicate _ 0) with
  | .infeasible final pivots => pure ⟨.infeasible, ⟨pivots, 0⟩, ⟨_, final⟩⟩
  | .feasible basis => basis.tableau.improve options direction cost basis.pivots basis.values

/-- Solve the tableau for the given cost of its decision variables. -/
def solve [Tolerance F E] (options : Options E) (direction : Direction) (cost : List F)
    (t : Tableau F L L.rows) : Journal (Event F L) (SolveError F E) (Outcome F L) := do
  let cost ← t.prepare options cost
  t.runPhases options direction cost

/-! ## How a run ends -/

/-- The second phase as a descent and what is read off its end. -/
theorem result_improve_eq [Tolerance F E] (options : Options E) (direction : Direction)
    (cost : Vector F L.decision) (pivots : Nat) (x : Vector F L.columns) (t : Tableau F L m) :
    (t.improve options direction cost pivots x).result =
      ((t.loadCost direction cost).descend (E := E) .two (Tolerance.read options.eps)
        (options.limit - pivots) pivots options.strategy x).result.map fun d =>
          ⟨match d.status with
            | .optimal => .optimal (d.solution direction)
            | .unbounded _ => .unbounded,
            ⟨pivots, d.pivots - pivots⟩, ⟨m, d.tableau⟩⟩ := by
  show ((t.loadCost direction cost).descend (E := E) .two (Tolerance.read options.eps)
    (options.limit - pivots) pivots options.strategy x >>= _).result = _
  rw [Journal.result_bind]
  cases ((t.loadCost direction cost).descend (E := E) .two (Tolerance.read options.eps)
    (options.limit - pivots) pivots options.strategy x).result with
  | error e => rfl
  | ok d =>
    obtain ⟨status, reached, values, count⟩ := d
    cases status <;> rfl

theorem result_runPhases_eq [Tolerance F E] (options : Options E) (direction : Direction)
    (cost : Vector F L.decision) (t : Tableau F L L.rows) :
    (t.runPhases options direction cost).result = (t.findFeasible options (Vector.replicate _ 0)).result >>= fun f =>
      match f with
      | .infeasible final pivots => .ok ⟨.infeasible, ⟨pivots, 0⟩, ⟨_, final⟩⟩
      | .feasible basis => (basis.tableau.improve options direction cost basis.pivots basis.values).result := by
  rw [runPhases, Journal.result_bind]
  refine congrArg _ (funext fun f => ?_)
  cases f <;> rfl

/-- A run that ends well was answered by the first phase, or went through a second descent from the basis found
    there. -/
theorem runPhases_eq_ok [Tolerance F E] {options : Options E} {direction : Direction}
    {cost : Vector F L.decision} {t : Tableau F L L.rows} {o : Outcome F L}
    (ho : (t.runPhases options direction cost).result = .ok o) :
    (∃ final pivots, (t.findFeasible options (Vector.replicate _ 0)).result = .ok (.infeasible final pivots) ∧
      o = ⟨.infeasible, ⟨pivots, 0⟩, ⟨_, final⟩⟩) ∨
    ∃ basis d, (t.findFeasible options (Vector.replicate _ 0)).result = .ok (.feasible basis) ∧
      ((basis.tableau.loadCost direction cost).descend (E := E) .two (Tolerance.read options.eps)
        (options.limit - basis.pivots) basis.pivots options.strategy basis.values).result = .ok d ∧
      o = ⟨match d.status with
        | .optimal => .optimal (d.solution direction)
        | .unbounded _ => .unbounded,
        ⟨basis.pivots, d.pivots - basis.pivots⟩, ⟨_, d.tableau⟩⟩ := by
  rw [result_runPhases_eq] at ho
  cases hf : (t.findFeasible options (Vector.replicate _ 0)).result with
  | error e => rw [hf] at ho; cases ho
  | ok f =>
    rw [hf] at ho
    simp only [bind, Except.bind] at ho
    cases f with
    | infeasible final pivots =>
      cases ho
      exact Or.inl ⟨final, pivots, rfl, rfl⟩
    | feasible basis =>
      simp only [result_improve_eq] at ho
      cases hd : ((basis.tableau.loadCost direction cost).descend (E := E) .two (Tolerance.read options.eps)
        (options.limit - basis.pivots) basis.pivots options.strategy basis.values).result with
      | error e => rw [hd] at ho; cases ho
      | ok d =>
        rw [hd] at ho
        cases ho
        exact Or.inr ⟨basis, d, rfl, hd, rfl⟩

/-- An optimum is found at the end of a second descent, after a first phase that found a feasible basis. -/
theorem runPhases_eq_optimal [Tolerance F E] {options : Options E} {direction : Direction}
    {cost : Vector F L.decision} {t : Tableau F L L.rows} {o : Outcome F L} {solution : Solution F}
    (ho : (t.runPhases options direction cost).result = .ok o) (hv : o.verdict = .optimal solution) :
    ∃ basis d, (t.findFeasible options (Vector.replicate _ 0)).result = .ok (.feasible basis) ∧
      ((basis.tableau.loadCost direction cost).descend (E := E) .two (Tolerance.read options.eps)
        (options.limit - basis.pivots) basis.pivots options.strategy basis.values).result = .ok d ∧
      d.status = .optimal ∧ o.final = ⟨_, d.tableau⟩ := by
  obtain ⟨final, pivots, -, rfl⟩ | ⟨basis, d, hf, hd, rfl⟩ := runPhases_eq_ok ho
  · cases hv
  · refine ⟨basis, d, hf, hd, ?_, rfl⟩
    cases hs : d.status with
    | optimal => rfl
    | unbounded j =>
      simp only [hs] at hv
      cases hv

theorem result_solve_eq [Tolerance F E] (options : Options E) (direction : Direction) (cost : List F)
    (t : Tableau F L L.rows) : (t.solve options direction cost).result =
      (t.prepare options cost).result >>= fun cost => (t.runPhases options direction cost).result :=
  Journal.result_bind ..

end Tableau

/-- Solve a program. -/
def Program.solve {F E : Type} [Scalar F] [Tolerance F E] (options : Options E) (p : Program F) :
    Journal (Event F p.layout) (SolveError F E) (Outcome F p.layout) := do
  let t ← p.tableau.mapError .inconsistent
  t.solve options p.direction p.cost

/-! ## A program solved -/

/-- The solution in words, if there is an optimal one. -/
def Outcome.solutionText? {F : Type} {L : Layout} [Numeral F] (o : Outcome F L) : Option String :=
  match o.verdict with
  | .optimal s => some s.text
  | _ => none

example : (Program.sample.solve Options.standard).result.toOption.bind Outcome.solutionText? =
    some "Objective value: 4\nx1 = 2\nx2 = 1" := by decide +kernel
example : ((Program.sample.solve Options.standard).events.flatMap (Event.report .info)) =
    ["INFO Solving with 3 rows and 6 columns, of which 2 artificial",
     "INFO phase one: 2 artificial variables with total value 5",
     "INFO phase one: feasible after 2 pivots",
     "INFO phase two: starting from objective value 4",
     "INFO phase two: optimal with objective value 4",
     "INFO Done after 2 pivots"] := by decide +kernel

end Simplex
