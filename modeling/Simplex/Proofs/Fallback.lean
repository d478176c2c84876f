/-
  The adaptive rule contains both of the others.

  As long as it stays in one mode, a strategy that may change its mode can not be told from one that may not: it
  chooses the same columns and the same rows, and it has no change to report.  So whole runs are compared here, with
  everything they note on the way, for numbers of any kind.

  1. `Strategy.StaysIn mode n` — the strategy is in the mode now and over the next `n` pivots, whatever they are.
     With threshold zero an adaptive strategy is careful for good, and below its threshold it is greedy.
  2. `Tableau.descend_eq_fixed` — a descent with no more pivots than that is the one of the fixed strategy.
  3. `Tableau.runPhases_eq_fixed` — so are both phases.  Each of them starts with a streak of zero, so the bound is on
     the pivots of one phase and not on their sum.
  4. `Tableau.solve_contains_fixed` — threshold zero gives Bland's rule, and a threshold above the number of pivots
     that Dantzig's rule takes in either phase gives Dantzig's rule.
-/
import Mathlib.Data.Rat.Lemmas
import Simplex.Proofs.Reached
import Simplex.Proofs.Truncation

namespace Simplex

/-! ## Strategies that stay in one mode -/

namespace Strategy

/-- The strategy is in the mode now, and stays in it over the next `n` pivots, degenerate or not. -/
def StaysIn (mode : Mode) : Nat → Strategy → Prop
  | 0, s => s.mode = mode
  | n + 1, s => s.mode = mode ∧ ∀ degenerate, StaysIn mode n (s.afterPivot degenerate)

variable {mode : Mode} {n : Nat} {s : Strategy}

theorem StaysIn.mode_eq (h : s.StaysIn mode n) : s.mode = mode := by
  cases n with
  | zero => exact h
  | succ n => exact h.1

/-- Any number of degenerate pivots is enough for a threshold of zero. -/
theorem staysIn_careful : ∀ n streak : Nat, (adaptive 0 streak).StaysIn .careful n
  | 0, streak => mode_adaptive_eq_careful_iff.2 (Nat.zero_le streak)
  | n + 1, streak => ⟨mode_adaptive_eq_careful_iff.2 (Nat.zero_le streak), fun _ => staysIn_careful n _⟩

theorem mode_adaptive_eq_greedy {threshold streak : Nat} (h : streak < threshold) :
    (adaptive threshold streak).mode = .greedy := if_neg (Nat.not_le.2 h)

/-- A streak can not be longer than the number of pivots. -/
theorem staysIn_greedy {threshold : Nat} : ∀ n streak : Nat, streak + n < threshold →
    (adaptive threshold streak).StaysIn .greedy n
  | 0, streak, h => mode_adaptive_eq_greedy h
  | n + 1, streak, h => by
    refine ⟨mode_adaptive_eq_greedy (by omega), fun degenerate => staysIn_greedy n _ ?_⟩
    split <;> omega

/-- Where the mode is the same, there is no change to report. -/
theorem switch_eq_nil {F : Type} {L : Layout} {after : Strategy} (h : s.mode = after.mode) :
    (s.switch after : List (Event F L)) = [] := by
  cases after with
  | fixed mode => rfl
  | adaptive threshold streak =>
    rw [switch, h]
    cases (adaptive threshold streak).mode <;> rfl

end Strategy

/-- Two sequences are the same if they begin alike and go on alike from what they have come to. -/
theorem Journal.bind_congr {ω ε α β : Type} {x : Journal ω ε α} {f g : α → Journal ω ε β}
    (h : ∀ a, x.result = .ok a → f a = g a) : x >>= f = x >>= g := by
  cases hx : x.result with
  | error e => rw [bind_of_error hx, bind_of_error hx]
  | ok a => rw [bind_of_ok hx, bind_of_ok hx, h a hx]

/-- The same choices, under another rule. -/
def Options.withRule {E : Type} (options : Options E) (rule : PivotRule) (threshold : Nat) : Options E :=
  { options with rule := rule, degeneracyThreshold := threshold }

namespace Tableau

variable {F E : Type} {L : Layout} {m : Nat} [Scalar F]

/-! ## One descent -/

/-- A strategy that stays in one mode for all pivots of a descent makes the descent of the fixed strategy. -/
theorem descend_eq_fixed {phase : Phase} {eps : F} {mode : Mode} : ∀ (left pivots n : Nat) (s : Strategy)
    (x : Vector F L.columns) (t : Tableau F L m), s.StaysIn mode n →
      (t.descend (E := E) phase eps left pivots (.fixed mode) x).reached.length ≤ n →
      t.descend (E := E) phase eps left pivots s x = t.descend phase eps left pivots (.fixed mode) x := by
  intro left
  induction left with
  | zero =>
    intro pivots n s x t hs _
    rw [descend, descend, hs.mode_eq, Strategy.mode_fixed]
  | succ left ih =>
    intro pivots n s x t hs hn
    rcases t.choice_cases eps mode with hj | ⟨j, hj, hi⟩ | ⟨j, i, hc⟩
    · rw [descend, descend, hs.mode_eq, Strategy.mode_fixed, hj]
    · rw [descend, descend, hs.mode_eq, Strategy.mode_fixed, hj]
      simp only [hi]
    · -- both make this pivot, which is one of the `n`
      rw [reached_descend_succ hc, List.length_cons] at hn
      obtain ⟨n, rfl⟩ : ∃ k, n = k + 1 := ⟨n - 1, by omega⟩
      obtain ⟨hmode, hnext⟩ := hs
      have hstep := hnext (isDegenerate eps (t.ratio j i))
      have hrest := ih (pivots + 1) n _ (t.writeSolution x) (t.pivot eps j i) hstep (by
        rw [Strategy.afterPivot_fixed] at hn
        omega)
      have hsame : s.mode = (s.afterPivot (isDegenerate eps (t.ratio j i))).mode :=
        hmode.trans hstep.mode_eq.symm
      rw [descend, descend, hmode, Strategy.mode_fixed, hc.entering]
      simp only [hc.leaving]
      rw [hrest, Strategy.switch_eq_nil hsame, Strategy.afterPivot_fixed, Strategy.switch_eq_nil rfl]

/-! ## The phases -/

variable [Tolerance F E]

/-- The descent of the first phase, under the given strategy. -/
def descentOne (options : Options E) (s : Strategy) (x : Vector F L.columns) (t : Tableau F L L.rows) :
    Journal (Event F L) (SolveError F E) (Descent F L L.rows) :=
  t.loadArtificial.descend .one (Tolerance.read options.eps) options.limit 0 s x

/-- The descent of the second phase, under the given strategy. -/
def descentTwo (options : Options E) (direction : Direction) (cost : Vector F L.decision) (pivots : Nat)
    (s : Strategy) (x : Vector F L.columns) (t : Tableau F L m) :
    Journal (Event F L) (SolveError F E) (Descent F L m) :=
  (t.loadCost direction cost).descend .two (Tolerance.read options.eps) (options.limit - pivots) pivots s x

variable {options : Options E} {rule rule' : PivotRule} {k k' : Nat} {x : Vector F L.columns}

/-- The first phase asks the rule for a strategy, and for nothing else. -/
theorem findFeasible_withRule_congr {t : Tableau F L L.rows}
    (h : t.descentOne options (rule.start k) x = t.descentOne options (rule'.start k') x) :
    t.findFeasible (options.withRule rule k) x = t.findFeasible (options.withRule rule' k') x := by
  show (Journal.note _ >>= fun _ => t.descentOne options (rule.start k) x >>= _) =
    (Journal.note _ >>= fun _ => t.descentOne options (rule'.start k') x >>= _)
  rw [h]
  rfl

theorem improve_withRule_congr {direction : Direction} {cost : Vector F L.decision} {pivots : Nat}
    {t : Tableau F L m} (h : t.descentTwo options direction cost pivots (rule.start k) x =
      t.descentTwo options direction cost pivots (rule'.start k') x) :
    t.improve (options.withRule rule k) direction cost pivots x =
      t.improve (options.withRule rule' k') direction cost pivots x := by
  show (Journal.note _ >>= fun _ => t.descentTwo options direction cost pivots (rule.start k) x >>= _) =
    (Journal.note _ >>= fun _ => t.descentTwo options direction cost pivots (rule'.start k') x >>= _)
  rw [h]

/-! ## Both phases -/

section Both

variable {direction : Direction} {cost : Vector F L.decision} {t : Tableau F L L.rows}

/-- Both phases under an adaptive rule that stays in one mode throughout each of them. -/
theorem runPhases_eq_fixed {mode : Mode} {threshold : Nat} (hrule : rule.start k = .fixed mode)
    (hone : (Strategy.adaptive threshold 0).StaysIn mode
      (t.descentOne options (.fixed mode) (Vector.replicate _ 0)).reached.length)
    (htwo : ∀ basis, (t.findFeasible (options.withRule rule k) (Vector.replicate _ 0)).result = .ok (.feasible basis) →
      (Strategy.adaptive threshold 0).StaysIn mode
        (basis.tableau.descentTwo options direction cost basis.pivots (.fixed mode) basis.values).reached.length) :
    t.runPhases (options.withRule .dantzigThenBland threshold) direction cost =
      t.runPhases (options.withRule rule k) direction cost := by
  have hfind : t.findFeasible (options.withRule .dantzigThenBland threshold) (Vector.replicate _ 0) =
      t.findFeasible (options.withRule rule k) (Vector.replicate _ 0) := by
    refine findFeasible_withRule_congr ?_
    rw [hrule]
    exact descend_eq_fixed _ _ _ _ _ _ hone (Nat.le_refl _)
  rw [runPhases, runPhases, hfind]
  refine Journal.bind_congr fun f hf => ?_
  cases f with
  | infeasible final pivots => rfl
  | feasible basis =>
    refine improve_withRule_congr ?_
    rw [hrule]
    exact descend_eq_fixed _ _ _ _ _ _ (htwo basis hf) (Nat.le_refl _)

/-- The pivots of the first phase are those of its descent and the exchanges at level zero. -/
theorem length_descentOne_le {f : Feasibility F L} (hf : (t.findFeasible options x).result = .ok f) :
    (t.descentOne options options.strategy x).reached.length ≤ f.pivots := by
  obtain ⟨d, hd, -, hend⟩ := findFeasible_eq_ok hf
  have hcount : d.pivots = 0 + (t.descentOne options options.strategy x).reached.length :=
    pivots_eq_of_descend _ _ _ _ _ hd
  rcases hend with ⟨-, rfl⟩ | ⟨-, out, hout, rfl⟩
  · show _ ≤ d.pivots
    omega
  · have hlimit := ((truncates_descend .one (Tolerance.read options.eps) 0 options.strategy x
      t.loadArtificial).within (n := options.limit) (Nat.zero_le _) hd).2
    have hmore := ((truncates_expelArtificials options d.pivots d.tableau).within hlimit hout).1
    show _ ≤ out.pivots
    omega

theorem exists_phaseOne_of_runPhases {o : Outcome F L}
    (ho : (t.runPhases options direction cost).result = .ok o) :
    ∃ f, (t.findFeasible options (Vector.replicate _ 0)).result = .ok f ∧ o.pivots.phaseOne = f.pivots := by
  obtain ⟨final, pivots, hf, rfl⟩ | ⟨basis, d, hf, -, rfl⟩ := runPhases_eq_ok ho
  · exact ⟨_, hf, rfl⟩
  · exact ⟨_, hf, rfl⟩

/-- Those of the second phase are those of its descent. -/
theorem length_descentTwo_eq {pivots : Nat} {u : Tableau F L m} {o : Outcome F L}
    (ho : (u.improve options direction cost pivots x).result = .ok o) :
    (u.descentTwo options direction cost pivots options.strategy x).reached.length = o.pivots.phaseTwo := by
  obtain ⟨l, b, hreached, -, hend⟩ := u.trail_improve options direction cost pivots x
  rw [reached_improve] at hreached
  rw [(hend o ho).2, ← (List.cons.inj hreached).2]
  rfl

end Both

/-- **The adaptive rule contains both of the others.**  With threshold zero a run is, event by event and up to its
    outcome or error, the run under Bland's rule; and where Dantzig's rule ends with an outcome, any threshold above
    the number of pivots in either phase makes the same run again. -/
theorem solve_contains_fixed (options : Options E) (direction : Direction) (cost : List F)
    (t : Tableau F L L.rows) :
    (∀ k, t.solve (options.withRule .dantzigThenBland 0) direction cost =
      t.solve (options.withRule .bland k) direction cost) ∧
    ∀ k o, (t.solve (options.withRule .dantzig k) direction cost).result = .ok o →
      ∀ threshold, o.pivots.phaseOne < threshold → o.pivots.phaseTwo < threshold →
        t.solve (options.withRule .dantzigThenBland threshold) direction cost =
          t.solve (options.withRule .dantzig k) direction cost := by
  refine ⟨fun k => ?_, fun k o ho threshold hp hq => ?_⟩
  · refine Journal.bind_congr fun c _ => ?_
    refine runPhases_eq_fixed rfl ?_ fun basis _ => ?_
    · exact Strategy.staysIn_careful _ 0
    · exact Strategy.staysIn_careful _ 0
  · refine Journal.bind_congr fun c hc => ?_
    -- the checks do not look at the rule
    have hprepare : (t.prepare (options.withRule .dantzig k) cost).result = .ok c := hc
    have hrun : (t.runPhases (options.withRule .dantzig k) direction c).result = .ok o := by
      rw [result_solve_eq, hprepare] at ho
      exact ho
    refine runPhases_eq_fixed rfl ?_ fun basis hf => ?_
    · obtain ⟨f, hf, hcount⟩ := exists_phaseOne_of_runPhases hrun
      have hle : (t.descentOne options (.fixed .greedy) (Vector.replicate _ 0)).reached.length ≤ f.pivots :=
        length_descentOne_le hf
      exact Strategy.staysIn_greedy _ 0 (by omega)
    · rw [result_runPhases_eq, hf] at hrun
      have hcount : (basis.tableau.descentTwo options direction c basis.pivots (.fixed .greedy)
        basis.values).reached.length = o.pivots.phaseTwo := length_descentTwo_eq hrun
      exact Strategy.staysIn_greedy _ 0 (by omega)

/-- The third variable is worth most and can not rise at all; the first two share one unit. -/
def stalling : Tableau ℚ ⟨3, 2, 0, 0⟩ 2 := fill ⟨3, 2, 0, 0⟩ [[0, 0, 1, 1, 0], [1, 1, 0, 0, 1]] [0, 1]

/-- On `stalling`, Dantzig's rule makes a degenerate pivot and then one that settles it.  A threshold above two makes
    the same run, threshold one turns careful after the first pivot and needs three, and threshold zero is Bland's
    rule. -/
theorem solve_contains_fixed_stalling : ∃ o,
    (stalling.solve (⟨1/8, none, .dantzig, 0⟩ : Options ℚ) .minimize [-1, -2, -3]).result = .ok o ∧
      o.pivots = ⟨0, 2⟩ ∧
      (∀ threshold, 2 < threshold → (stalling.solve (⟨1/8, none, .dantzigThenBland, threshold⟩ : Options ℚ)
        .minimize [-1, -2, -3]).result = .ok o) ∧
      (stalling.solve (⟨1/8, none, .dantzigThenBland, 1⟩ : Options ℚ)
        .minimize [-1, -2, -3]).result.toOption.map (·.pivots) = some ⟨0, 3⟩ ∧
      stalling.solve (⟨1/8, none, .dantzigThenBland, 0⟩ : Options ℚ) .minimize [-1, -2, -3] =
        stalling.solve (⟨1/8, none, .bland, 0⟩ : Options ℚ) .minimize [-1, -2, -3] := by
  obtain ⟨hbland, hdantzig⟩ :=
    solve_contains_fixed (⟨1/8, none, .dantzig, 0⟩ : Options ℚ) .minimize [-1, -2, -3] stalling
  have hpivots : (stalling.solve (⟨1/8, none, .dantzig, 0⟩ : Options ℚ) .minimize
      [-1, -2, -3]).result.toOption.map (·.pivots) = some ⟨0, 2⟩ := by decide +kernel
  cases hrun : (stalling.solve (⟨1/8, none, .dantzig, 0⟩ : Options ℚ) .minimize [-1, -2, -3]).result with
  | error e => rw [hrun] at hpivots; cases hpivots
  | ok o =>
    have ho : o.pivots = ⟨0, 2⟩ := by
      rw [hrun] at hpivots
      exact Option.some.inj hpivots
    refine ⟨o, rfl, ho, fun threshold hlt => ?_, by decide +kernel, hbland 0⟩
    rw [← hrun]
    refine congrArg Journal.result (hdantzig 0 o hrun threshold ?_ ?_)
    · rw [ho]
      show 0 < threshold
      omega
    · rw [ho]
      exact hlt

end Tableau

end Simplex
