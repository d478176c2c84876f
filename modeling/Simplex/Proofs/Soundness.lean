/-
  Verdicts are right.

  A verdict on the first tableau of a program is carried over to the program as it was stated: points of the
  tableau are feasible values of the decision variables and the other way round, and the objective is the
  oriented cost.

  1. `Verdict.Describes` — what a verdict says about a program, and `Verdict.Answers.describes` — it is what the
     verdict says about the first tableau.
  2. `Program.answers_of_solve` — under a tolerance that resolves the program, the verdict is right, and the
     tableau that shows a program to be infeasible shows the least sum of its artificial variables.
  3. Verdict by verdict, for every small tolerance, every rule and every limit, each with a program that gets it.
-/
import Simplex.Proofs.Termination

namespace Simplex

variable {F : Type} [Field F] [LinearOrder F] [IsStrictOrderedRing F]

/-! ## What a verdict says about a program -/

/-- What a verdict says about a program. -/
def Verdict.Describes (p : Program F) : Verdict F → Prop
  | .infeasible => ∀ x, ¬ p.Feasible x
  | .optimal s => p.Feasible s.point ∧ s.value = p.costAt s.point ∧
      ∀ x, p.Feasible x → p.direction.NoWorse s.value (p.costAt x)
  | .unbounded => ∀ bound, ∃ x, p.Feasible x ∧ p.direction.Better (p.costAt x) bound

/-- A verdict that is right about the first tableau is right about the program. -/
theorem Verdict.Answers.describes {p : Program F} {t : Tableau F p.layout p.layout.rows}
    {v : Verdict F} (hv : v.Answers (p.posed t) p.direction) (ht : p.tableau.result = .ok t) :
    v.Describes p := by
  cases v with
  | infeasible =>
    intro x hx
    obtain ⟨y, hy, -⟩ := Program.exists_point ht hx
    exact hv y hy
  | optimal s =>
    obtain ⟨y, hy, hpoint, hvalue, hleast⟩ := hv
    have hcost : s.value = p.costAt s.point := by
      rw [hvalue, hpoint, Program.objective_posed, Direction.orient_orient]
    refine ⟨hpoint ▸ Program.feasible_of_point ht hy, hcost, ?_⟩
    intro x hx
    obtain ⟨z, hz, rfl⟩ := Program.exists_point ht hx
    have hle := hleast z hz
    rw [Program.objective_posed, Program.objective_posed, Direction.orient_le_orient_iff,
      ← hpoint, ← hcost] at hle
    exact hle
  | unbounded =>
    intro bound
    obtain ⟨y, hy, hlt⟩ := hv (p.direction.orient bound)
    rw [Program.objective_posed, Direction.orient_lt_orient_iff] at hlt
    exact ⟨p.layout.decisions y, Program.feasible_of_point ht hy, hlt⟩

namespace Program

variable {p : Program F} {options : Options F} {o : Outcome F p.layout}

/-- **Soundness.**  Under a tolerance that resolves the program the verdict is right, and a tableau that shows
    the program to be infeasible shows the least sum of its artificial variables. -/
theorem answers_of_solve (hr : p.ResolvedBy options.eps) (h0 : 0 < options.eps)
    (ho : (p.solve options).result = .ok o) : ∃ t, p.tableau.result = .ok t ∧
      o.verdict.Answers (p.posed t) p.direction ∧ (o.verdict = .infeasible →
        IsLeast (Problem.artificial t).values o.final.tableau.value) := by
  obtain ⟨t, ht⟩ := exists_tableau_of_solve ho
  obtain ⟨hr₁, hr₂⟩ := hr t ht
  rw [result_solve ht h0] at ho
  exact ⟨t, ht, (fresh ht).answers_of_runPhases hr₁ hr₂ h0 ho⟩

theorem describes_of_solve (hr : p.ResolvedBy options.eps) (h0 : 0 < options.eps)
    (ho : (p.solve options).result = .ok o) : o.verdict.Describes p := by
  obtain ⟨t, ht, hv, -⟩ := answers_of_solve hr h0 ho
  exact hv.describes ht

/-- Every accepted program has a run under a tolerance as small as one likes that ends with a right verdict. -/
theorem exists_solve_lt (hp : p.tableau.result.isOk = true) {bound : F} (hb : 0 < bound) :
    ∃ (options : Options F) (o : Outcome F p.layout), 0 < options.eps ∧ options.eps < bound ∧
      (p.solve options).result = .ok o ∧ o.verdict.Describes p := by
  obtain ⟨t, ht⟩ := exists_tableau_of_isOk hp
  obtain ⟨eps₀, hpos, hres⟩ := p.forSmall_resolvedBy
  obtain ⟨eps, h0, hlt⟩ := exists_between (lt_min hpos hb)
  have hr := hres eps h0 (lt_of_lt_of_le hlt (min_le_left ..))
  obtain ⟨enough, o, ho⟩ := exists_solve ⟨eps, none, .bland, 0⟩ ht hr h0 (Or.inl rfl)
  have hrun := ho enough (le_refl enough)
  exact ⟨_, o, h0, lt_of_lt_of_le hlt (min_le_right ..), hrun, describes_of_solve hr h0 hrun⟩

/-! ## Verdict by verdict -/

/-- **Optimality.**  There is a bound that depends on the program alone, such that with any positive tolerance
    below it, any rule and any limit, a reported optimum is feasible, its value is its cost, and no feasible
    point has a better cost. -/
theorem optimal_of_solve (p : Program F) : ∃ eps₀ : F, 0 < eps₀ ∧ ∀ options : Options F,
    0 < options.eps → options.eps < eps₀ → ∀ (o : Outcome F p.layout) (s : Solution F),
      (p.solve options).result = .ok o → o.verdict = .optimal s →
      p.Feasible s.point ∧ s.value = p.costAt s.point ∧
        ∀ x, p.Feasible x → p.direction.NoWorse s.value (p.costAt x) := by
  obtain ⟨eps₀, hpos, hres⟩ := p.forSmall_resolvedBy
  refine ⟨eps₀, hpos, ?_⟩
  intro options h0 hlt o s ho hverdict
  have hdescribes := describes_of_solve (hres options.eps h0 hlt) h0 ho
  rw [hverdict] at hdescribes
  exact hdescribes

/-- A program with a constraint of each kind; the last one has a negative right-hand side. -/
def mixed : Program ℚ where
  direction := .minimize
  cost := [1, 2]
  constraints := [⟨[1, -1], .eq, 1⟩, ⟨[1, 2], .ge, 4⟩, ⟨[-1, -1], .ge, -6⟩]

/-- The least cost of `mixed` is found. -/
theorem optimal_of_solve_mixed : ∃ (options : Options ℚ) (o : Outcome ℚ mixed.layout)
    (s : Solution ℚ), 0 < options.eps ∧ (mixed.solve options).result = .ok o ∧
      o.verdict = .optimal s ∧ mixed.Feasible s.point ∧ s.value = mixed.costAt s.point ∧
        (∀ x, mixed.Feasible x → s.value ≤ mixed.costAt x) ∧ s.value = 4 := by
  obtain ⟨eps₀, hpos, hsound⟩ := optimal_of_solve mixed
  have hok : mixed.tableau.result.isOk = true := by decide +kernel
  have hcorner : mixed.Feasible [2, 1] := by decide +kernel
  -- the second constraint bounds the cost
  have hcost : ∀ x, mixed.Feasible x → 4 ≤ mixed.costAt x := by
    intro x hx
    have hge : (⟨[1, 2], .ge, 4⟩ : Constraint ℚ).Holds x := hx.holds _ (by simp [mixed])
    exact hge
  obtain ⟨options, o, h0, hlt, ho, hv⟩ := exists_solve_lt hok hpos
  cases hverdict : o.verdict with
  | infeasible =>
    rw [hverdict] at hv
    exact absurd hcorner (hv [2, 1])
  | unbounded =>
    rw [hverdict] at hv
    obtain ⟨x, hx, hbelow⟩ := hv 4
    exact absurd hbelow (not_lt.2 (hcost x hx))
  | optimal s =>
    obtain ⟨hfeas, hvalue, hbest⟩ := hsound options h0 hlt o s ho hverdict
    have hle : s.value ≤ 4 := (hbest [2, 1] hcorner).trans (by decide +kernel)
    exact ⟨options, o, s, h0, ho, hverdict, hfeas, hvalue, hbest,
      le_antisymm hle (hvalue ▸ hcost s.point hfeas)⟩

/-- **Infeasibility.**  There is a bound that depends on the program alone, such that with any positive tolerance
    below it, any rule and any limit, a program that is reported infeasible has no feasible point, and the value
    of the final tableau is the least sum of the artificial variables over the nonnegative solutions of the first
    one. -/
theorem infeasible_of_solve (p : Program F) : ∃ eps₀ : F, 0 < eps₀ ∧ ∀ options : Options F,
    0 < options.eps → options.eps < eps₀ → ∀ o : Outcome F p.layout,
      (p.solve options).result = .ok o → o.verdict = .infeasible →
      (∀ x, ¬ p.Feasible x) ∧ ∃ t, p.tableau.result = .ok t ∧
        IsLeast {v | ∃ y : Fin p.layout.columns → F, t.Holds y ∧ (∀ j, 0 ≤ y j) ∧
          p.layout.artificialSum y = v} o.final.tableau.value := by
  obtain ⟨eps₀, hpos, hres⟩ := p.forSmall_resolvedBy
  refine ⟨eps₀, hpos, ?_⟩
  intro options h0 hlt o ho hverdict
  obtain ⟨t, ht, hv, hleast⟩ := answers_of_solve (hres options.eps h0 hlt) h0 ho
  have hdescribes := hv.describes ht
  rw [hverdict] at hdescribes
  refine ⟨hdescribes, t, ht, ?_⟩
  rw [← Problem.values_artificial]
  exact hleast hverdict

/-- A program that asks a variable to be at least two and at most one. -/
def contradictory : Program ℚ where
  direction := .minimize
  cost := [1]
  constraints := [⟨[1], .ge, 2⟩, ⟨[1], .le, 1⟩]

/-- `contradictory` is found to be infeasible. -/
theorem infeasible_of_solve_contradictory : ∃ (options : Options ℚ)
    (o : Outcome ℚ contradictory.layout), 0 < options.eps ∧
      (contradictory.solve options).result = .ok o ∧ o.verdict = .infeasible ∧
      (∀ x, ¬ contradictory.Feasible x) ∧ ∃ t, contradictory.tableau.result = .ok t ∧
        IsLeast {v | ∃ y : Fin contradictory.layout.columns → ℚ, t.Holds y ∧ (∀ j, 0 ≤ y j) ∧
          contradictory.layout.artificialSum y = v} o.final.tableau.value := by
  obtain ⟨eps₀, hpos, hsound⟩ := infeasible_of_solve contradictory
  have hok : contradictory.tableau.result.isOk = true := by decide +kernel
  have hnone : ∀ x, ¬ contradictory.Feasible x := by
    intro x hx
    have hge : (2 : ℚ) ≤ dot [1] x := hx.holds ⟨[1], .ge, 2⟩ (by simp [contradictory])
    have hle : dot [1] x ≤ (1 : ℚ) := hx.holds ⟨[1], .le, 1⟩ (by simp [contradictory])
    linarith
  obtain ⟨options, o, h0, hlt, ho, hv⟩ := exists_solve_lt hok hpos
  cases hverdict : o.verdict with
  | infeasible => exact ⟨options, o, h0, ho, hverdict, hsound options h0 hlt o ho hverdict⟩
  | optimal s =>
    rw [hverdict] at hv
    exact absurd hv.1 (hnone s.point)
  | unbounded =>
    rw [hverdict] at hv
    obtain ⟨x, hx, -⟩ := hv 0
    exact absurd hx (hnone x)

/-- **Unboundedness.**  There is a bound that depends on the program alone, such that with any positive tolerance
    below it, any rule and any limit, a program that is reported unbounded has feasible points with costs better
    than any given one. -/
theorem unbounded_of_solve (p : Program F) : ∃ eps₀ : F, 0 < eps₀ ∧ ∀ options : Options F,
    0 < options.eps → options.eps < eps₀ → ∀ o : Outcome F p.layout,
      (p.solve options).result = .ok o → o.verdict = .unbounded →
      ∀ bound, ∃ x, p.Feasible x ∧ p.direction.Better (p.costAt x) bound := by
  obtain ⟨eps₀, hpos, hres⟩ := p.forSmall_resolvedBy
  refine ⟨eps₀, hpos, ?_⟩
  intro options h0 hlt o ho hverdict
  have hdescribes := describes_of_solve (hres options.eps h0 hlt) h0 ho
  rw [hverdict] at hdescribes
  exact hdescribes

/-- A program whose variables can rise together. -/
def rising : Program ℚ where
  direction := .maximize
  cost := [1, 0]
  constraints := [⟨[1, -1], .le, 1⟩]

/-- `rising` is found to be unbounded. -/
theorem unbounded_of_solve_rising : ∃ (options : Options ℚ) (o : Outcome ℚ rising.layout),
    0 < options.eps ∧ (rising.solve options).result = .ok o ∧ o.verdict = .unbounded ∧
      ∀ bound, ∃ x, rising.Feasible x ∧ bound < rising.costAt x := by
  obtain ⟨eps₀, hpos, hsound⟩ := unbounded_of_solve rising
  have hok : rising.tableau.result.isOk = true := by decide +kernel
  have hdiagonal : ∀ k : ℚ, 0 ≤ k → rising.Feasible [k, k] ∧ rising.costAt [k, k] = k := by
    intro k hk
    refine ⟨⟨rfl, by simpa using hk, ?_⟩, by simp [costAt, rising]⟩
    simp [rising, Constraint.Holds, Relation.Holds]
  obtain ⟨options, o, h0, hlt, ho, hv⟩ := exists_solve_lt hok hpos
  cases hverdict : o.verdict with
  | infeasible =>
    rw [hverdict] at hv
    exact absurd (hdiagonal 0 (le_refl 0)).1 (hv [0, 0])
  | optimal s =>
    rw [hverdict] at hv
    -- one above the reported value is reached as well
    have hk : (0 : ℚ) ≤ |s.value| + 1 := by positivity
    obtain ⟨hfeas, hcost⟩ := hdiagonal _ hk
    have hle : rising.costAt _ ≤ s.value := hv.2.2 _ hfeas
    rw [hcost] at hle
    have := le_abs_self s.value
    linarith
  | unbounded => exact ⟨options, o, h0, ho, hverdict, hsound options h0 hlt o ho hverdict⟩

end Program

end Simplex
