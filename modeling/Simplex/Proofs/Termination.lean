/-
  Careful rules solve every program.

  1. `Program.ResolvedBy` — the tolerance resolves both problems that the first tableau of a program poses, and
     `Program.forSmall_resolvedBy` — every small tolerance does.
  2. `Tableau.result_solve_toList`, `Program.result_solve` — with costs that fit, a tableau goes through both phases,
     and so does an accepted program.
  3. `Program.exists_solve` — under such a tolerance, and under a rule that turns careful, there is an outcome as
     soon as enough pivots are allowed, and a larger limit does not change it.
  4. The same in terms of the program alone, and a program on which the greedy rule runs in a circle for an
     example.
-/
import Mathlib.Data.Rat.Lemmas
import Simplex.Proofs.StandardForm

namespace Simplex

variable {F : Type} [Field F] [LinearOrder F]

/-! ## Costs that fit -/

namespace Tableau

variable {L : Layout} {m : Nat} {options : Options F}

/-- As many costs as there are decision variables fit the layout. -/
theorem checkCost_toList (cost : Vector F L.decision) : checkCost L cost.toList = .ok cost := by
  have hfault : costFault? cost.toList = none := costFault?_eq_none_iff.2 fun _ _ => rfl
  rw [checkCost, dif_pos (Vector.length_toList ..), hfault]
  rfl

theorem prepare_toList (t : Tableau F L m) (cost : Vector F L.decision) (h0 : 0 < options.eps) :
    t.prepare options cost.toList = ⟨[.solving m], .ok cost⟩ := by
  have hcheck : options.check F = .ok () := if_pos (decide_eq_true h0)
  rw [prepare, hcheck, checkCost_toList]
  rfl

/-- A tableau goes through both phases. -/
theorem result_solve_toList (t : Tableau F L L.rows) (direction : Direction) (cost : Vector F L.decision)
    (h0 : 0 < options.eps) :
    (t.solve options direction cost.toList).result = (t.runPhases options direction cost).result := by
  rw [solve, prepare_toList t cost h0]
  rfl

end Tableau

namespace Program

variable {p : Program F} {options : Options F} {t : Tableau F p.layout p.layout.rows}

/-! ## Tolerances for a program -/

/-- The tolerance separates zero from every other number in the tableaux of both phases. -/
def ResolvedBy (p : Program F) (eps : F) : Prop :=
  ∀ t, p.tableau.result = .ok t → (Problem.artificial t).ResolvedBy eps ∧ (p.posed t).ResolvedBy eps

theorem forSmall_resolvedBy [IsStrictOrderedRing F] (p : Program F) : ForSmall p.ResolvedBy := by
  cases hp : p.tableau.result with
  | error e =>
    refine ForSmall.of_forall ?_
    intro eps t ht
    rw [hp] at ht
    cases ht
  | ok t =>
    have hboth := (Problem.artificial t).forSmall_resolvedBy.and (p.posed t).forSmall_resolvedBy
    refine hboth.mono ?_
    intro eps _ h u hu
    rw [hp] at hu
    cases hu
    exact h

/-! ## Through both phases -/

theorem fresh (ht : p.tableau.result = .ok t) : t.Fresh := .of_ofRows (ofRows_eq_ok ht)

theorem prepare_eq (t : Tableau F p.layout p.layout.rows) (h0 : 0 < options.eps) :
    t.prepare options p.cost = ⟨[.solving p.layout.rows], .ok p.costVector⟩ :=
  t.prepare_toList p.costVector h0

/-- An accepted program goes through both phases. -/
theorem result_solve (ht : p.tableau.result = .ok t) (h0 : 0 < options.eps) :
    (p.solve options).result = (t.runPhases options p.direction p.costVector).result := by
  rw [solve, Journal.result_bind_of_ok (Journal.result_mapError_eq_ok_iff.2 ht)]
  exact t.result_solve_toList p.direction p.costVector h0

/-- Only an accepted program has an outcome. -/
theorem exists_tableau_of_solve {o : Outcome F p.layout} (ho : (p.solve options).result = .ok o) :
    ∃ t, p.tableau.result = .ok t := by
  obtain ⟨t, ht, -⟩ := Journal.result_bind_eq_ok_iff.1 ho
  exact ⟨t, Journal.result_mapError_eq_ok_iff.1 ht⟩

theorem exists_tableau_of_isOk (h : p.tableau.result.isOk = true) : ∃ t, p.tableau.result = .ok t := by
  cases ht : p.tableau.result with
  | ok t => exact ⟨t, rfl⟩
  | error e =>
    rw [ht] at h
    cases h

/-! ## An outcome -/

/-- An accepted program has an outcome as soon as enough pivots are allowed, and a larger limit does not change
    it. -/
theorem exists_solve [IsStrictOrderedRing F] (options : Options F) (ht : p.tableau.result = .ok t)
    (hr : p.ResolvedBy options.eps) (h0 : 0 < options.eps)
    (hrule : options.rule = .bland ∨ options.rule = .dantzigThenBland) :
    ∃ (enough : Nat) (o : Outcome F p.layout), ∀ n, enough ≤ n →
      (p.solve { options with maxPivots := some n }).result = .ok o := by
  obtain ⟨hr₁, hr₂⟩ := hr t ht
  obtain ⟨enough, o, ho⟩ := (fresh ht).exists_runPhases (.start hrule options.degeneracyThreshold) hr₁ hr₂ h0
  refine ⟨enough, o, ?_⟩
  intro n hn
  rw [result_solve ht]
  · exact ho n hn
  · exact h0

/-- **Careful rules end.**  There is a bound that depends on the program alone, such that with any positive
    tolerance below it, the rule that is careful throughout and the rule that turns careful after any number of
    degenerate pivots both reach an outcome once enough pivots are allowed: no larger limit is ever hit. -/
theorem solve_ends [IsStrictOrderedRing F] (p : Program F) (hp : p.tableau.result.isOk = true) :
    ∃ eps₀ : F, 0 < eps₀ ∧ ∀ options : Options F, 0 < options.eps → options.eps < eps₀ →
      options.rule = .bland ∨ options.rule = .dantzigThenBland →
      ∃ (enough : Nat) (o : Outcome F p.layout), ∀ n, enough ≤ n →
        (p.solve { options with maxPivots := some n }).result = .ok o := by
  obtain ⟨t, ht⟩ := exists_tableau_of_isOk hp
  obtain ⟨eps₀, hpos, hres⟩ := p.forSmall_resolvedBy
  exact ⟨eps₀, hpos, fun options h0 hlt hrule =>
    exists_solve options ht (hres options.eps h0 hlt) h0 hrule⟩

/-- Beale's program, on which the greedy rule runs in a circle. -/
def beale : Program ℚ where
  direction := .minimize
  cost := [-3/4, 150, -1/50, 6]
  constraints := [⟨[1/4, -60, -1/25, 9], .le, 0⟩, ⟨[1/2, -90, -1/50, 3], .le, 0⟩, ⟨[0, 0, 1], .le, 1⟩]

/-- On Beale's program both careful rules end. -/
theorem solve_ends_beale : beale.tableau.result.isOk = true ∧
    ∃ eps₀ : ℚ, 0 < eps₀ ∧ ∀ options : Options ℚ, 0 < options.eps → options.eps < eps₀ →
      options.rule = .bland ∨ options.rule = .dantzigThenBland →
      ∃ (enough : Nat) (o : Outcome ℚ beale.layout), ∀ n, enough ≤ n →
        (beale.solve { options with maxPivots := some n }).result = .ok o :=
  have hp : beale.tableau.result.isOk = true := by decide +kernel
  ⟨hp, solve_ends beale hp⟩

end Program

end Simplex
