/-
  The first phase: a basis without artificial variables.

  1. The sum of the artificial variables is minimised.  If its least value is above the tolerance, the
     constraints contradict each other.
  2. Otherwise artificial variables that are still basic are at level zero, up to rounding.  Each of them is
     replaced by the first other variable with a significant entry in its row (`driveOut`), in the order of the
     artificial columns.  The level of the row is set to zero first, so the exchange moves nothing.
  3. A row without such an entry says nothing that the other rows do not say: it is redundant and is removed.
  4. The buffer for the solution was not touched by the exchanges; it is rewritten once they are through.

  Exchanges at level zero count as pivots.
-/
import Simplex.Descent
import Simplex.Tableau.Objective
import Simplex.Tableau.Removal

namespace Simplex

/-! ## Driving artificial variables out -/

/-- A tableau after its artificial basic variables were replaced, the rows where that was impossible, and the
    number of pivots so far. -/
structure DrivenOut (F : Type) (L : Layout) (m : Nat) where
  tableau : Tableau F L m
  redundant : List (Fin m)
  pivots : Nat

namespace Tableau

variable {F E : Type} {L : Layout} {m : Nat}

/-- The rows with an artificial basic variable, in the order of these variables. -/
def artificialBasics (t : Tableau F L m) : List (Fin m) :=
  ((List.finRange m).filter fun i => L.isArtificial (t.basic i)).mergeSort fun i k =>
    t.basic i ≤ t.basic k

variable [Scalar F]

/-- The first column that can take the place of the artificial variable of row `i`. -/
def replacement? (t : Tableau F L m) (eps : F) (i : Fin m) : Option (Fin L.columns) :=
  (List.finRange L.columns).find? fun j =>
    !L.isArtificial j && !t.isBasic j && Scalar.significant eps (t.entry i j)

/-- Replace the artificial basic variables of the given rows, one after the other. -/
def driveOut (eps : F) (limit : Nat) :
    List (Fin m) → Nat → Tableau F L m → Journal (Event F L) (SolveError F E) (DrivenOut F L m)
  | [], pivots, t => pure ⟨t, [], pivots⟩
  | i :: rest, pivots, t =>
    match t.replacement? eps i with
    | none => do
      let out ← driveOut eps limit rest pivots t
      pure { out with redundant := i :: out.redundant }
    | some j =>
      if limit ≤ pivots then do
        .note (.stopped .one pivots)
        .fail (.pivotLimit .one pivots)
      else do
        -- an exact zero in the row keeps all other levels where they are
        let reached := (t.clearLevel i).pivot eps j i
        .note (.replaced j i (t.basic i) ⟨m, reached⟩)
        driveOut eps limit rest (pivots + 1) reached

/-! ## One row more -/

section

variable {eps : F} {limit pivots : Nat} {t : Tableau F L m} {i : Fin m} {rest : List (Fin m)}

theorem result_driveOut_of_none (h : t.replacement? eps i = none) :
    (driveOut (E := E) eps limit (i :: rest) pivots t).result =
      (driveOut (E := E) eps limit rest pivots t).result.map
        fun out => { out with redundant := i :: out.redundant } := by
  rw [driveOut, h]
  simp only [Journal.result_bind]
  cases (driveOut (E := E) eps limit rest pivots t).result <;> rfl

theorem result_driveOut_of_limit {j : Fin L.columns} (h : t.replacement? eps i = some j)
    (hlimit : limit ≤ pivots) : (driveOut (E := E) eps limit (i :: rest) pivots t).result =
      .error (.pivotLimit .one pivots) := by
  rw [driveOut, h]
  simp only [if_pos hlimit]
  rfl

theorem result_driveOut_of_some {j : Fin L.columns} (h : t.replacement? eps i = some j)
    (hlimit : ¬ limit ≤ pivots) : (driveOut (E := E) eps limit (i :: rest) pivots t).result =
      (driveOut (E := E) eps limit rest (pivots + 1) ((t.clearLevel i).pivot eps j i)).result := by
  rw [driveOut, h]
  simp only [if_neg hlimit]
  rfl

/-- The induction over the rows gone through, for runs that end well: the next row is marked as redundant, or its
    artificial variable is exchanged for another one. -/
theorem driveOut_induct {motive : List (Fin m) → Nat → Tableau F L m → DrivenOut F L m → Prop}
    (nil : ∀ pivots t, motive [] pivots t ⟨t, [], pivots⟩)
    (mark : ∀ {i rest pivots t out}, t.replacement? eps i = none →
      (driveOut (E := E) eps limit rest pivots t).result = .ok out → motive rest pivots t out →
      motive (i :: rest) pivots t { out with redundant := i :: out.redundant })
    (exchange : ∀ {i rest pivots t out j}, t.replacement? eps i = some j → pivots < limit →
      (driveOut (E := E) eps limit rest (pivots + 1) ((t.clearLevel i).pivot eps j i)).result = .ok out →
      motive rest (pivots + 1) ((t.clearLevel i).pivot eps j i) out → motive (i :: rest) pivots t out)
    {is : List (Fin m)} : ∀ {pivots : Nat} {t : Tableau F L m} {out : DrivenOut F L m},
      (driveOut (E := E) eps limit is pivots t).result = .ok out → motive is pivots t out := by
  induction is with
  | nil =>
    intro pivots t out hout
    cases hout
    exact nil pivots t
  | cons i rest ih =>
    intro pivots t out hout
    cases hrep : t.replacement? eps i with
    | none =>
      rw [result_driveOut_of_none hrep] at hout
      cases hsub : (driveOut (E := E) eps limit rest pivots t).result with
      | error e => rw [hsub] at hout; cases hout
      | ok sub =>
        rw [hsub] at hout
        cases hout
        exact mark hrep hsub (ih hsub)
    | some j =>
      by_cases hlimit : limit ≤ pivots
      · rw [result_driveOut_of_limit hrep hlimit] at hout
        cases hout
      · rw [result_driveOut_of_some hrep hlimit] at hout
        exact exchange hrep (Nat.lt_of_not_le hlimit) hout (ih hout)

/-- What is found to take the place of an artificial variable is not artificial, and has an entry in the
    row. -/
theorem replacement?_eq_some {j : Fin L.columns} (h : t.replacement? eps i = some j) :
    L.isArtificial j = false ∧ Scalar.significant eps (t.entry i j) = true := by
  have hj := List.find?_some h
  simp only [Bool.and_eq_true, Bool.not_eq_true'] at hj
  exact ⟨hj.1.1, hj.2⟩

/-- Nor is it basic yet. -/
theorem not_basic_of_replacement? {j : Fin L.columns} (h : t.replacement? eps i = some j) :
    t.isBasic j = false := by
  have hj := List.find?_some h
  simp only [Bool.and_eq_true, Bool.not_eq_true'] at hj
  exact hj.1.2

end

end Tableau

/-! ## The phase -/

/-- A feasible basis: a tableau with all rows of the layout, the rows of it that are redundant, the number of pivots so
    far, and what the buffer for the solution holds. -/
structure FeasibleBasis (F : Type) (L : Layout) where
  full : Tableau F L L.rows
  redundant : List (Fin L.rows)
  pivots : Nat
  values : Vector F L.columns

/-- The tableau the second phase starts from. -/
def FeasibleBasis.tableau {F : Type} {L : Layout} (b : FeasibleBasis F L) :
    Tableau F L (Tableau.survivors b.redundant).length :=
  b.full.removeRows b.redundant

/-- The event of the removal, if there are redundant rows. -/
def DrivenOut.removal {F : Type} {L : Layout} {m : Nat} (out : DrivenOut F L m) : List (Event F L) :=
  if out.redundant.isEmpty then [] else [.removing (out.redundant.map fun i => i.val)]

/-- What is left once all artificial variables were dealt with: the redundant rows are removed, and the solution is
    written down. -/
def DrivenOut.handOver {F : Type} {L : Layout} [Zero F] (out : DrivenOut F L L.rows) (x : Vector F L.columns) :
    FeasibleBasis F L :=
  ⟨out.tableau, out.redundant, out.pivots, (out.tableau.removeRows out.redundant).writeSolution x⟩

/-- How the first phase ended. -/
inductive Feasibility (F : Type) (L : Layout) where
  | infeasible (tableau : Tableau F L L.rows) (pivots : Nat)
  | feasible (basis : FeasibleBasis F L)

namespace Tableau

variable {F E : Type} {L : Layout} {m : Nat} [Scalar F] [Tolerance F E]

/-- Replace all artificial basic variables; the redundant rows come out in order. -/
def expelArtificials (options : Options E) (pivots : Nat) (t : Tableau F L m) :
    Journal (Event F L) (SolveError F E) (DrivenOut F L m) := do
  let out ← t.driveOut (Tolerance.read options.eps) options.limit t.artificialBasics pivots
  pure { out with redundant := out.redundant.mergeSort fun i k => i ≤ k }

/-- Look for a feasible basis; `x` is the buffer for the solution. -/
def findFeasible (options : Options E) (x : Vector F L.columns) (t : Tableau F L L.rows) :
    Journal (Event F L) (SolveError F E) (Feasibility F L) := do
  let eps : F := Tolerance.read options.eps
  let loaded := t.loadArtificial
  .note (.artificialLoaded ⟨_, loaded⟩)
  let d ← loaded.descend .one eps options.limit 0 options.strategy x
  match d.status with
  | .unbounded _ => .fail .unboundedArtificialCost
  | .optimal =>
    if eps < d.tableau.value then do
      .note (.infeasible d.tableau.value)
      pure (.infeasible d.tableau d.pivots)
    else do
      let out ← d.tableau.expelArtificials options d.pivots
      .notes out.removal
      let basis := out.handOver d.values
      .note (.written basis.values)
      .note (.feasible basis.pivots)
      pure (.feasible basis)

/-! ## How the phase ends -/

theorem result_expelArtificials (t : Tableau F L m) (options : Options E) (pivots : Nat) :
    (t.expelArtificials options pivots).result =
      (driveOut (E := E) (Tolerance.read options.eps) options.limit t.artificialBasics pivots t).result.map
        fun out => { out with redundant := out.redundant.mergeSort fun i k => i ≤ k } := by
  rw [expelArtificials, Journal.result_bind]
  cases (driveOut (E := E) (Tolerance.read options.eps) options.limit t.artificialBasics pivots t).result <;>
    rfl

/-- All artificial variables are dealt with if one row after the other can be gone through. -/
theorem expelArtificials_eq_ok_iff {t : Tableau F L m} {options : Options E} {pivots : Nat}
    {out : DrivenOut F L m} : (t.expelArtificials options pivots).result = .ok out ↔ ∃ redundant,
      (driveOut (E := E) (Tolerance.read options.eps) options.limit t.artificialBasics pivots t).result =
        .ok { out with redundant } ∧ out.redundant = redundant.mergeSort fun i k => i ≤ k := by
  rw [result_expelArtificials]
  constructor
  · intro h
    cases hsub : (driveOut (E := E) (Tolerance.read options.eps) options.limit t.artificialBasics pivots t).result with
    | error e => rw [hsub] at h; cases h
    | ok sub =>
      rw [hsub] at h
      cases h
      exact ⟨sub.redundant, rfl, rfl⟩
  · rintro ⟨redundant, hsub, hsorted⟩
    rw [hsub, Except.map, ← hsorted]

/-- The first phase as a descent and what is made of its end. -/
theorem result_findFeasible_eq (t : Tableau F L L.rows) (options : Options E) (x : Vector F L.columns) :
    (t.findFeasible options x).result =
      (t.loadArtificial.descend (E := E) .one (Tolerance.read options.eps) options.limit 0
        options.strategy x).result >>= fun d =>
          match d.status with
          | .unbounded _ => .error .unboundedArtificialCost
          | .optimal =>
            if (Tolerance.read options.eps : F) < d.tableau.value then
              .ok (.infeasible d.tableau d.pivots)
            else (d.tableau.expelArtificials options d.pivots).result.map fun out =>
              .feasible (out.handOver d.values) := by
  show (t.loadArtificial.descend (E := E) .one (Tolerance.read options.eps) options.limit 0
    options.strategy x >>= _).result = _
  rw [Journal.result_bind]
  refine congrArg _ (funext fun d => ?_)
  cases d.status with
  | unbounded j => rfl
  | optimal =>
    by_cases hv : (Tolerance.read options.eps : F) < d.tableau.value
    · simp only [if_pos hv]
      rfl
    · simp only [if_neg hv, Journal.result_bind]
      cases (d.tableau.expelArtificials options d.pivots).result <;> rfl

/-- A first phase that ends well went through a descent to a tableau without profitable columns.  It is answered there
    if the artificial cost is above the tolerance, and otherwise after all artificial variables were dealt with. -/
theorem findFeasible_eq_ok {t : Tableau F L L.rows} {options : Options E} {x : Vector F L.columns}
    {f : Feasibility F L} (h : (t.findFeasible options x).result = .ok f) : ∃ d,
      (t.loadArtificial.descend (E := E) .one (Tolerance.read options.eps) options.limit 0
        options.strategy x).result = .ok d ∧ d.status = .optimal ∧
      (((Tolerance.read options.eps : F) < d.tableau.value ∧ f = .infeasible d.tableau d.pivots) ∨
        ¬ (Tolerance.read options.eps : F) < d.tableau.value ∧ ∃ out,
          (d.tableau.expelArtificials options d.pivots).result = .ok out ∧ f = .feasible (out.handOver d.values)) := by
  rw [result_findFeasible_eq] at h
  cases hd : (t.loadArtificial.descend (E := E) .one (Tolerance.read options.eps) options.limit 0
    options.strategy x).result with
  | error e => rw [hd] at h; cases h
  | ok d =>
    rw [hd] at h
    refine ⟨d, rfl, ?_⟩
    simp only [bind, Except.bind] at h
    cases hs : d.status with
    | unbounded j => rw [hs] at h; cases h
    | optimal =>
      rw [hs] at h
      by_cases hv : (Tolerance.read options.eps : F) < d.tableau.value
      · simp only [if_pos hv] at h
        cases h
        exact ⟨rfl, Or.inl ⟨hv, rfl⟩⟩
      · simp only [if_neg hv] at h
        cases hout : (d.tableau.expelArtificials options d.pivots).result with
        | error e => rw [hout] at h; cases h
        | ok out =>
          rw [hout] at h
          cases h
          exact ⟨rfl, Or.inr ⟨hv, out, rfl, rfl⟩⟩

/-- A feasible basis is found at the end of a descent: no column was profitable, the artificial cost was not above
    the tolerance, and all artificial variables could be dealt with. -/
theorem findFeasible_eq_feasible {t : Tableau F L L.rows} {options : Options E} {x : Vector F L.columns}
    {basis : FeasibleBasis F L} (h : (t.findFeasible options x).result = .ok (.feasible basis)) : ∃ d,
      (t.loadArtificial.descend (E := E) .one (Tolerance.read options.eps) options.limit 0
        options.strategy x).result = .ok d ∧ d.status = .optimal ∧
      ¬ (Tolerance.read options.eps : F) < d.tableau.value ∧ ∃ out,
      (d.tableau.expelArtificials options d.pivots).result = .ok out ∧ basis = out.handOver d.values := by
  obtain ⟨d, hd, hs, ⟨-, hf⟩ | ⟨hv, out, hout, hf⟩⟩ := findFeasible_eq_ok h
  · cases hf
  · cases hf
    exact ⟨d, hd, hs, hv, out, hout, rfl⟩

end Tableau

end Simplex
