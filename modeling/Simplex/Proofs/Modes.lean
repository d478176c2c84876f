/-
  When the adaptive rule is careful.

  The adaptive rule keeps a count of degenerate pivots and nothing else.  What the count has to do with the pivots that
  were made is said here for every run, for numbers of any kind, whether the run ends well or not.

  1. `Mode.after` — the mode that a history of step lengths asks for: careful if the last `threshold` of them were
     degenerate.  The count of the adaptive rule tells just that (`Strategy.mode_adaptive_eq_after`).
  2. `Turn` — a pivot that was chosen, with the tableau it was chosen on, and `Turn.Account` — the pivots of a run are
     such turns, each linked to the one before and chosen in the mode that the steps before it ask for.  Every descent
     has an account (`Tableau.exists_account`).
  3. `Journal.pivotsIn` — the pivots that a run notes for a phase.  They are those of its descent: exchanges at level
     zero and the other phase have no part in them (`Tableau.pivotsIn_findFeasible`, `Tableau.pivotsIn_improve`).
  4. `Tableau.enteringColumn?_careful_eq_some_iff`, `Tableau.enteringColumn?_greedy_eq_some_iff` — which column either
     mode takes.
-/
import Simplex.Proofs.Fallback
import Simplex.Proofs.LawfulScalar

namespace Simplex

variable {F E : Type} {L : Layout} {m : Nat} [Scalar F]

/-! ## Modes and histories -/

/-- The mode after pivots of the given step lengths: careful if there were `threshold` of them and the last `threshold`
    were degenerate. -/
def Mode.after (threshold : Nat) (eps : F) (steps : List F) : Mode :=
  if threshold ≤ steps.length ∧ ∀ step ∈ steps.drop (steps.length - threshold), step ≤ eps then .careful else .greedy

/-- How many degenerate pivots came last, in a row. -/
def degenerateStreak (eps : F) (steps : List F) : Nat :=
  steps.foldl (fun streak step => if isDegenerate eps step then streak + 1 else 0) 0

/-- A step makes the streak longer by one, or ends it. -/
theorem degenerateStreak_append (eps : F) (steps : List F) (step : F) :
    degenerateStreak eps (steps ++ [step]) =
      if isDegenerate eps step then degenerateStreak eps steps + 1 else 0 := by
  rw [degenerateStreak, List.foldl_append]
  rfl

/-- The streak is long enough exactly if the last pivots were all degenerate. -/
theorem le_degenerateStreak_iff {eps : F} {steps : List F} : ∀ {threshold : Nat},
    threshold ≤ degenerateStreak eps steps ↔
      threshold ≤ steps.length ∧ ∀ step ∈ steps.drop (steps.length - threshold), step ≤ eps := by
  -- the last pivot is the last of every streak but the empty one
  induction steps using List.reverseRecOn with
  | nil => simp [degenerateStreak]
  | append_singleton steps step ih =>
    intro threshold
    cases threshold with
    | zero => rw [Nat.sub_zero, List.drop_length]; simp
    | succ n =>
      rw [degenerateStreak_append, List.length_append, List.length_singleton, Nat.add_sub_add_right,
        List.drop_append_of_le_length (Nat.sub_le ..), List.forall_mem_append, List.forall_mem_singleton]
      by_cases hstep : step ≤ eps
      · have hdegenerate : isDegenerate eps step = true := decide_eq_true hstep
        rw [if_pos hdegenerate, Nat.add_le_add_iff_right, Nat.add_le_add_iff_right, ih]
        simp [hstep]
      · have hdegenerate : ¬ isDegenerate eps step = true := fun h => hstep (of_decide_eq_true h)
        rw [if_neg hdegenerate]
        simp [hstep]

/-- The count of the adaptive rule tells the mode that the history asks for. -/
theorem Strategy.mode_adaptive_eq_after (threshold : Nat) (eps : F) (steps : List F) :
    (adaptive threshold (degenerateStreak eps steps)).mode = .after threshold eps steps := by
  show (if threshold ≤ degenerateStreak eps steps then Mode.careful else .greedy) = _
  rw [Mode.after, if_congr le_degenerateStreak_iff rfl rfl]

example : (List.range 4).map (fun k => Mode.after 2 (1/8 : ℚ) ([0, 0, 1, 0].take k)) =
    [.greedy, .greedy, .careful, .greedy] := by decide +kernel
example : Mode.after 0 (1/8 : ℚ) [1] = .careful := by decide +kernel    -- careful whatever happened

/-- The counter of an adaptive strategy is the streak of the steps so far. -/
theorem Strategy.afterPivot_adaptive (threshold : Nat) (eps : F) (steps : List F) (step : F) :
    (adaptive threshold (degenerateStreak eps steps)).afterPivot (isDegenerate eps step) =
      adaptive threshold (degenerateStreak eps (steps ++ [step])) := by
  rw [degenerateStreak_append]
  rfl

/-! ## Turns -/

/-- A pivot that was chosen, with the tableau it was chosen on. -/
structure Turn (F : Type) (L : Layout) (m : Nat) where
  tableau : Tableau F L m
  column : Fin L.columns
  row : Fin m

namespace Turn

/-- How far the entering variable rises. -/
def step (c : Turn F L m) : F := c.tableau.ratio c.column c.row

/-- The tableau after the pivot. -/
def next (eps : F) (c : Turn F L m) : Tableau F L m := c.tableau.pivot eps c.column c.row

/-- What is noted about the pivot. -/
def event (phase : Phase) (eps : F) (c : Turn F L m) (number : Nat) : Event F L :=
  .pivoted phase number c.column c.row (c.tableau.basic c.row) (c.next eps).value ⟨m, c.next eps⟩

/-- What is noted about the pivots, which are numbered from `first` on. -/
def events (phase : Phase) (eps : F) (first : Nat) (turns : List (Turn F L m)) : List (Event F L) :=
  (turns.zipIdx first).map fun (c, number) => c.event phase eps number

/-- The first turn is on `t`, every other one on the tableau after the one before, and they lead to `last`. -/
def Linked (eps : F) : Tableau F L m → List (Turn F L m) → Tableau F L m → Prop
  | t, [], last => t = last
  | t, c :: turns, last => c.tableau = t ∧ Linked eps (c.next eps) turns last

end Turn

/-- The event itself, if it is a pivot of the phase. -/
def Event.pivotIn? (phase : Phase) : Event F L → Option (Event F L)
  | .pivoted phase' number entering row leaving value reached =>
    if phase' = phase then some (.pivoted phase' number entering row leaving value reached) else none
  | _ => none

/-- The pivots that a run notes for the phase, in order. -/
def Journal.pivotsIn {ε α : Type} (phase : Phase) (run : Journal (Event F L) ε α) : List (Event F L) :=
  run.gathered (Event.pivotIn? phase)

omit [Scalar F] in
/-- A pivot reaches a tableau, so an event that reaches none is no pivot. -/
theorem Event.pivotIn?_eq_none (phase : Phase) (e : Event F L) (he : e.reached? = none) : e.pivotIn? phase = none := by
  cases e with
  | pivoted => cases he
  | _ => rfl

namespace Tableau

/-! ## One descent -/

/-- What the last selection of a descent came to, after so many pivots, on the tableau `last` and in the given mode: no
    column, a column without a row, or a pivot that is not allowed any more. -/
def Concludes (last : Tableau F L m) (phase : Phase) (eps : F) (mode : Mode) (pivots : Nat) :
    Except (SolveError F E) (Descent F L m) → Prop
  | .ok d => d.tableau = last ∧ d.pivots = pivots ∧
    match d.status with
    | .optimal => last.enteringColumn? eps mode = none
    | .unbounded j => last.enteringColumn? eps mode = some j ∧ last.leavingRow? eps mode.tieBreak j = none
  | .error e => e = .pivotLimit phase pivots ∧ ∃ j i, last.Chooses eps mode j i

section Descend

variable {phase : Phase} {eps : F} {left pivots : Nat} {s : Strategy} {x : Vector F L.columns} {t : Tableau F L m}

/-- A descent that is over has no pivots. -/
theorem pivotsIn_descend_of_optimal (phase' : Phase) (h : t.enteringColumn? eps s.mode = none) :
    (t.descend (E := E) phase eps left pivots s x).pivotsIn phase' = [] := by
  rw [descend, h]
  rfl

theorem pivotsIn_descend_of_unlimited (phase' : Phase) {j : Fin L.columns} (hj : t.enteringColumn? eps s.mode = some j)
    (hi : t.leavingRow? eps s.mode.tieBreak j = none) :
    (t.descend (E := E) phase eps left pivots s x).pivotsIn phase' = [] := by
  rw [descend, hj]
  simp only [hi]
  rfl

variable {j : Fin L.columns} {i : Fin m}

theorem pivotsIn_descend_zero (phase' : Phase) (h : t.Chooses eps s.mode j i) :
    (t.descend (E := E) phase eps 0 pivots s x).pivotsIn phase' = [] := by
  rw [descend, h.entering]
  simp only [h.leaving]
  rfl

/-- The pivots of a descent are the one chosen now and those of the descent after it. -/
theorem pivotsIn_descend_succ (phase' : Phase) (h : t.Chooses eps s.mode j i) :
    (t.descend (E := E) phase eps (left + 1) pivots s x).pivotsIn phase' =
      [Turn.event phase eps ⟨t, j, i⟩ (pivots + 1)].filterMap (Event.pivotIn? phase') ++
        ((t.pivot eps j i).descend (E := E) phase eps left (pivots + 1)
          (s.afterPivot (isDegenerate eps (t.ratio j i))) (t.writeSolution x)).pivotsIn phase' :=
  gathered_descend_succ (Event.pivotIn?_eq_none phase') h

end Descend

end Tableau

/-! ## The turns of a descent -/

namespace Turn

/-- The turns account for the end of a run, from `t` on and after pivots with the step lengths `past`: its pivots are
    these turns, linked to each other and each chosen in the mode that all steps before it ask for, and so is what the
    run ends with. -/
structure Account (phase : Phase) (eps : F) (threshold pivots : Nat) (past : List F) (t : Tableau F L m)
    (run : Journal (Event F L) (SolveError F E) (Descent F L m)) (turns : List (Turn F L m)) (last : Tableau F L m) :
    Prop where
  linked : Linked eps t turns last
  pivotsIn_eq : run.pivotsIn phase = events phase eps (pivots + 1) turns
  chooses : ∀ (k : Nat) (c : Turn F L m), turns[k]? = some c →
    c.tableau.Chooses eps (.after threshold eps (past ++ (turns.take k).map step)) c.column c.row
  concludes : last.Concludes phase eps (.after threshold eps (past ++ turns.map step)) (pivots + turns.length)
    run.result

namespace Account

variable {phase : Phase} {eps : F} {threshold pivots : Nat} {past : List F} {t last : Tableau F L m}
  {run rest : Journal (Event F L) (SolveError F E) (Descent F L m)} {turns : List (Turn F L m)}

/-- A run that ends before any pivot. -/
theorem nil (hpivots : run.pivotsIn phase = [])
    (hend : t.Concludes phase eps (.after threshold eps past) pivots run.result) :
    Account phase eps threshold pivots past t run [] t where
  linked := rfl
  pivotsIn_eq := hpivots
  chooses k c hc := by simp at hc
  concludes := by
    rw [List.map_nil, List.append_nil]
    exact hend

/-- A run that goes on after a pivot. -/
theorem cons {j : Fin L.columns} {i : Fin m} (hc : t.Chooses eps (.after threshold eps past) j i)
    (hpivots : run.pivotsIn phase = event phase eps ⟨t, j, i⟩ (pivots + 1) :: rest.pivotsIn phase)
    (hresult : run.result = rest.result)
    (h : Account phase eps threshold (pivots + 1) (past ++ [t.ratio j i]) (t.pivot eps j i) rest turns last) :
    Account phase eps threshold pivots past t run (⟨t, j, i⟩ :: turns) last where
  linked := ⟨rfl, h.linked⟩
  pivotsIn_eq := by
    rw [hpivots, h.pivotsIn_eq]
    rfl
  chooses k c hk := by
    cases k with
    | zero =>
      cases hk
      rw [List.take_zero, List.map_nil, List.append_nil]
      exact hc
    | succ k =>
      rw [List.take_succ_cons, List.map_cons, List.append_cons]
      exact h.chooses k c hk
  concludes := by
    rw [hresult, List.map_cons, List.append_cons, List.length_cons, Nat.add_comm turns.length, ← Nat.add_assoc]
    exact h.concludes

end Account

end Turn

namespace Tableau

/-- Every descent of the adaptive rule is accounted for. -/
theorem exists_account (phase : Phase) (eps : F) (threshold left pivots : Nat) (past : List F)
    (x : Vector F L.columns) (t : Tableau F L m) : ∃ turns last, Turn.Account phase eps threshold pivots past t
      (t.descend (E := E) phase eps left pivots (.adaptive threshold (degenerateStreak eps past)) x) turns last := by
  have hmode := Strategy.mode_adaptive_eq_after threshold eps past
  rcases t.choice_cases eps (.after threshold eps past) with hj | ⟨j, hj, hi⟩ | ⟨j, i, hc⟩
  · have hj' := hmode ▸ hj
    refine ⟨[], t, .nil (pivotsIn_descend_of_optimal phase hj') ?_⟩
    rw [result_descend_of_optimal hj']
    exact ⟨rfl, rfl, hj⟩
  · have hj' := hmode ▸ hj
    have hi' := hmode ▸ hi
    refine ⟨[], t, .nil (pivotsIn_descend_of_unlimited phase hj' hi') ?_⟩
    rw [result_descend_of_unlimited hj' hi']
    exact ⟨rfl, rfl, hj, hi⟩
  · have hc' := hmode ▸ hc
    cases left with
    | zero =>
      refine ⟨[], t, .nil (pivotsIn_descend_zero phase hc') ?_⟩
      rw [result_descend_zero hc']
      exact ⟨rfl, j, i, hc⟩
    | succ left =>
      -- the history of the rest is one step longer, and the count is that of the longer history
      obtain ⟨turns, last, hrest⟩ :=
        exists_account phase eps threshold left (pivots + 1) (past ++ [t.ratio j i]) (t.writeSolution x)
          (t.pivot eps j i)
      rw [← Strategy.afterPivot_adaptive] at hrest
      refine ⟨⟨t, j, i⟩ :: turns, last, hrest.cons hc ?_ (result_descend_succ hc')⟩
      rw [pivotsIn_descend_succ phase hc']
      simp [Turn.event, Event.pivotIn?]

/-! ## The phases -/

/-- A descent notes no pivots for the other phase. -/
theorem pivotsIn_descend_of_ne {phase phase' : Phase} (hne : phase ≠ phase') (eps : F) (left pivots : Nat)
    (s : Strategy) (x : Vector F L.columns) (t : Tableau F L m) :
    (t.descend (E := E) phase eps left pivots s x).pivotsIn phase' = [] := by
  rcases t.choice_cases eps s.mode with hj | ⟨j, hj, hi⟩ | ⟨j, i, hc⟩
  · exact pivotsIn_descend_of_optimal phase' hj
  · exact pivotsIn_descend_of_unlimited phase' hj hi
  · cases left with
    | zero => exact pivotsIn_descend_zero phase' hc
    | succ left =>
      rw [pivotsIn_descend_succ phase' hc, pivotsIn_descend_of_ne hne]
      simp [Turn.event, Event.pivotIn?, hne]

/-- Exchanges at level zero are not among the pivots of a phase. -/
theorem pivotsIn_driveOut (phase : Phase) (eps : F) (limit : Nat) : ∀ (is : List (Fin m)) (pivots : Nat)
    (t : Tableau F L m), (driveOut (E := E) eps limit is pivots t).pivotsIn phase = []
  | [], _, _ => rfl
  | i :: rest, pivots, t => by
    rw [driveOut]
    cases h : t.replacement? eps i with
    | none =>
      exact (Journal.gathered_bind_of_silent _ fun _ => rfl).trans (pivotsIn_driveOut phase eps limit rest pivots t)
    | some j =>
      by_cases hlimit : limit ≤ pivots
      · simp only [if_pos hlimit]
        rfl
      · simp only [if_neg hlimit]
        exact (Journal.gathered_bind_of_ok rfl _).trans (pivotsIn_driveOut phase eps limit rest _ _)

variable [Tolerance F E]

/-- Exchanges at level zero are not pivots of a descent. -/
theorem pivotsIn_expelArtificials (phase : Phase) (options : Options E) (pivots : Nat) (t : Tableau F L m) :
    (t.expelArtificials options pivots).pivotsIn phase = [] :=
  (gathered_expelArtificials (Event.pivotIn? phase) ..).trans (pivotsIn_driveOut phase ..)

/-- The pivots of the first phase are those of its descent. -/
theorem pivotsIn_findFeasible (phase : Phase) (options : Options E) (x : Vector F L.columns) (t : Tableau F L L.rows) :
    (t.findFeasible options x).pivotsIn phase = (t.descentOne options options.strategy x).pivotsIn phase := by
  refine (Journal.gathered_bind_of_ok rfl _).trans ((List.nil_append _).trans ?_)
  refine Journal.gathered_bind_of_silent _ fun d => ?_
  cases d.status with
  | unbounded j => rfl
  | optimal =>
    by_cases hv : (Tolerance.read options.eps : F) < d.tableau.value
    · simp only [if_pos hv]
      rfl
    · simp only [if_neg hv]
      refine (Journal.gathered_bind_of_silent _ fun out => ?_).trans (pivotsIn_expelArtificials phase options _ _)
      exact (Journal.gathered_bind_of_ok rfl _).trans
        (congrArg (· ++ _) (filterMap_removal (Event.pivotIn?_eq_none phase) out))

/-- The pivots of the second phase are those of its descent. -/
theorem pivotsIn_improve (phase : Phase) (options : Options E) (direction : Direction) (cost : Vector F L.decision)
    (pivots : Nat) (x : Vector F L.columns) (t : Tableau F L m) :
    (t.improve options direction cost pivots x).pivotsIn phase =
      (t.descentTwo options direction cost pivots options.strategy x).pivotsIn phase :=
  gathered_improve (Event.pivotIn?_eq_none phase) ..

section Both

variable {options : Options E} {direction : Direction} {cost : Vector F L.decision} {t : Tableau F L L.rows}

/-- The pivots of a run are those of its two descents, one after the other. -/
theorem pivotsIn_runPhases_of_feasible (phase : Phase) {basis : FeasibleBasis F L}
    (hf : (t.findFeasible options (Vector.replicate _ 0)).result = .ok (.feasible basis)) :
    (t.runPhases options direction cost).pivotsIn phase =
      (t.descentOne options options.strategy (Vector.replicate _ 0)).pivotsIn phase ++
        (basis.tableau.descentTwo options direction cost basis.pivots options.strategy
          basis.values).pivotsIn phase := by
  rw [← pivotsIn_findFeasible, ← pivotsIn_improve]
  exact Journal.gathered_bind_of_ok hf _

/-- A run that does not get to its second phase has those of the first one only. -/
theorem pivotsIn_runPhases_of_not_feasible (phase : Phase)
    (hf : ∀ basis, (t.findFeasible options (Vector.replicate _ 0)).result ≠ .ok (.feasible basis)) :
    (t.runPhases options direction cost).pivotsIn phase =
      (t.descentOne options options.strategy (Vector.replicate _ 0)).pivotsIn phase := by
  rw [← pivotsIn_findFeasible]
  cases h : (t.findFeasible options (Vector.replicate _ 0)).result with
  | error e => exact Journal.gathered_bind_of_error h _
  | ok f =>
    cases f with
    | infeasible final pivots => exact (Journal.gathered_bind_of_ok h _).trans (List.append_nil _)
    | feasible basis => exact absurd h (hf basis)

/-- The pivots that both phases note for the first one. -/
theorem pivotsIn_one_runPhases (options : Options E) (direction : Direction) (cost : Vector F L.decision)
    (t : Tableau F L L.rows) : (t.runPhases options direction cost).pivotsIn .one =
      (t.descentOne options options.strategy (Vector.replicate _ 0)).pivotsIn .one := by
  by_cases hf : ∃ basis, (t.findFeasible options (Vector.replicate _ 0)).result = .ok (.feasible basis)
  · obtain ⟨basis, hbasis⟩ := hf
    have hnone : (basis.tableau.descentTwo options direction cost basis.pivots options.strategy
        basis.values).pivotsIn .one = [] := pivotsIn_descend_of_ne (by decide) ..
    rw [pivotsIn_runPhases_of_feasible .one hbasis, hnone, List.append_nil]
  · exact pivotsIn_runPhases_of_not_feasible .one (not_exists.1 hf)

/-- The pivots that both phases note for the second one, if it begins at all. -/
theorem pivotsIn_two_runPhases (options : Options E) (direction : Direction) (cost : Vector F L.decision)
    (t : Tableau F L L.rows) :
    (∀ basis, (t.findFeasible options (Vector.replicate _ 0)).result = .ok (.feasible basis) →
      (t.runPhases options direction cost).pivotsIn .two =
        (basis.tableau.descentTwo options direction cost basis.pivots options.strategy basis.values).pivotsIn .two) ∧
    ((∀ basis, (t.findFeasible options (Vector.replicate _ 0)).result ≠ .ok (.feasible basis)) →
      (t.runPhases options direction cost).pivotsIn .two = []) := by
  have hnone : (t.descentOne options options.strategy (Vector.replicate _ 0)).pivotsIn .two = [] :=
    pivotsIn_descend_of_ne (by decide) ..
  constructor
  · intro basis hf
    rw [pivotsIn_runPhases_of_feasible .two hf, hnone, List.nil_append]
  · intro hf
    rw [pivotsIn_runPhases_of_not_feasible .two hf, hnone]

/-- Before the phases there are no pivots. -/
theorem pivotsIn_solve (phase : Phase) (direction : Direction) {cost : List F} {c : Vector F L.decision}
    (hc : (t.prepare options cost).result = .ok c) : (t.solve options direction cost).pivotsIn phase =
      (t.runPhases options direction c).pivotsIn phase := by
  have hprepare : (t.prepare options cost).pivotsIn phase = [] :=
    (Journal.gathered_bind_of_silent _ fun _ => Journal.gathered_bind_of_silent _ fun _ => rfl).trans rfl
  refine (Journal.gathered_bind_of_ok hc _).trans ?_
  exact congrArg (· ++ (t.runPhases options direction c).pivotsIn phase) hprepare

end Both

end Tableau

/-! ## The columns -/

namespace Tableau

variable {t : Tableau F L m} {eps : F} {j k : Fin L.columns}

/-- In either mode no column enters exactly when no candidate is profitable. -/
theorem enteringColumn?_eq_none_iff_not_lt (t : Tableau F L m) (eps : F) (mode : Mode) :
    t.enteringColumn? eps mode = none ↔ ∀ j ∈ t.candidates, ¬ t.cost j < -eps := by
  rw [enteringColumn?_eq_none_iff, List.eq_nil_iff_forall_not_mem]
  simp only [mem_profitable, not_and]

/-- In either mode a column enters if one is profitable. -/
theorem exists_enteringColumn? (mode : Mode) (hj : j ∈ t.profitable eps) :
    ∃ k, t.enteringColumn? eps mode = some k := by
  refine Option.ne_none_iff_exists'.1 fun h => ?_
  rw [enteringColumn?_eq_none_iff.1 h] at hj
  cases hj

/-- The careful mode takes the lowest profitable column. -/
theorem enteringColumn?_careful_eq_some_iff : t.enteringColumn? eps .careful = some j ↔
    j ∈ t.profitable eps ∧ ∀ k ∈ t.profitable eps, j ≤ k := by
  constructor
  · intro h
    exact ⟨mem_profitable_of_enteringColumn? h, fun k hk => le_of_enteringColumn?_careful h hk⟩
  · rintro ⟨hj, hlowest⟩
    obtain ⟨k, hk⟩ := exists_enteringColumn? .careful hj
    rw [hk, Fin.le_antisymm (le_of_enteringColumn?_careful hk hj) (hlowest k (mem_profitable_of_enteringColumn? hk))]

variable [LawfulScalar F]

theorem decide_cost_lt_trans (a b c : Fin L.columns) (hab : decide (t.cost a < t.cost b) = true)
    (hbc : decide (t.cost b < t.cost c) = true) : decide (t.cost a < t.cost c) = true :=
  decide_eq_true (LawfulScalar.lt_trans _ _ _ (of_decide_eq_true hab) (of_decide_eq_true hbc))

/-- A profitable cost is below a number, so it can be compared with any two that are apart. -/
theorem decide_cost_lt_or_lt {b : Fin L.columns} (hb : b ∈ t.profitable eps) (a c : Fin L.columns)
    (hac : decide (t.cost a < t.cost c) = true) :
    decide (t.cost a < t.cost b) = true ∨ decide (t.cost b < t.cost c) = true := by
  have hlt := LawfulScalar.lt_or_lt _ _ _ _ (of_decide_eq_true hac) (mem_profitable.1 hb).2
  exact hlt.imp decide_eq_true decide_eq_true

/-- No profitable column has a lower cost than the one the greedy mode takes. -/
theorem not_cost_lt_of_enteringColumn?_greedy (h : t.enteringColumn? eps .greedy = some j)
    (hk : k ∈ t.profitable eps) : ¬ t.cost k < t.cost j := by
  have hirrefl : ∀ a, decide (t.cost a < t.cost a) = false := fun a => decide_eq_false (LawfulScalar.lt_irrefl _)
  exact of_decide_eq_false (not_better_of_pick hirrefl decide_cost_lt_trans h hk)

/-- Columns are gone through from left to right, so of those with the least cost the lowest is taken. -/
theorem le_of_enteringColumn?_greedy (h : t.enteringColumn? eps .greedy = some j) (hk : k ∈ t.profitable eps)
    (hleast : ∀ l ∈ t.profitable eps, ¬ t.cost l < t.cost k) : j ≤ k :=
  le_of_pick decide_cost_lt_trans (fun _ hb => decide_cost_lt_or_lt hb) (t.pairwise_profitable eps) h hk
    (decide_eq_false (hleast j (mem_profitable_of_enteringColumn? h)))

/-- The greedy mode takes the lowest of the columns with the least cost. -/
theorem enteringColumn?_greedy_eq_some_iff : t.enteringColumn? eps .greedy = some j ↔
    (j ∈ t.profitable eps ∧ ∀ k ∈ t.profitable eps, ¬ t.cost k < t.cost j) ∧
      ∀ k ∈ t.profitable eps, (∀ l ∈ t.profitable eps, ¬ t.cost l < t.cost k) → j ≤ k := by
  constructor
  · intro h
    exact ⟨⟨mem_profitable_of_enteringColumn? h, fun k hk => not_cost_lt_of_enteringColumn?_greedy h hk⟩,
      fun k hk => le_of_enteringColumn?_greedy h hk⟩
  · rintro ⟨⟨hj, hleast⟩, hlowest⟩
    obtain ⟨k, hk⟩ := exists_enteringColumn? .greedy hj
    have hle : k ≤ j := le_of_enteringColumn?_greedy hk hj hleast
    have hge : j ≤ k := hlowest k (mem_profitable_of_enteringColumn? hk) fun l hl =>
      not_cost_lt_of_enteringColumn?_greedy hk hl
    rw [hk, Fin.le_antisymm hle hge]

/-- **When the adaptive rule is careful.**  In every descent of a fresh adaptive rule, the pivots are turns, each on the
    tableau the one before led to, and column and row of each are chosen in one and the same mode: careful if there were
    `threshold` pivots before it in this descent and the last `threshold` of them rose by no more than the tolerance,
    greedy otherwise.  The selection after the last pivot is made in the mode of all steps, whichever way it ends.
    Each phase of a run is such a descent with a count of its own, so exchanges at level zero and the pivots of the
    other phase do not count.  Both modes find no column on the same tableaux, the careful one takes the lowest
    profitable column, and the greedy one the lowest of those with the least relative cost. -/
theorem modes_follow_steps [Tolerance F E] :
    (∀ (m : Nat) (t : Tableau F L m) (x : Vector F L.columns) (phase : Phase) (eps : F)
      (threshold left pivots : Nat), ∃ turns last,
      Turn.Linked eps t turns last ∧
      (t.descend (E := E) phase eps left pivots (.adaptive threshold 0) x).pivotsIn phase =
        Turn.events phase eps (pivots + 1) turns ∧
      (∀ (k : Nat) (c : Turn F L m), turns[k]? = some c →
        c.tableau.Chooses eps (.after threshold eps ((turns.take k).map Turn.step)) c.column c.row) ∧
      last.Concludes phase eps (.after threshold eps (turns.map Turn.step)) (pivots + turns.length)
        (t.descend (E := E) phase eps left pivots (.adaptive threshold 0) x).result) ∧
    (∀ (options : Options E) (direction : Direction) (cost : List F) (t : Tableau F L L.rows) (c : Vector F L.decision),
      options.rule = .dantzigThenBland → (t.prepare options cost).result = .ok c →
      (t.solve options direction cost).pivotsIn .one =
        (t.descentOne options (.adaptive options.degeneracyThreshold 0) (Vector.replicate _ 0)).pivotsIn .one ∧
      (∀ basis, (t.findFeasible options (Vector.replicate _ 0)).result = .ok (.feasible basis) →
        (t.solve options direction cost).pivotsIn .two = (basis.tableau.descentTwo options direction c basis.pivots
          (.adaptive options.degeneracyThreshold 0) basis.values).pivotsIn .two) ∧
      ((∀ basis, (t.findFeasible options (Vector.replicate _ 0)).result ≠ .ok (.feasible basis)) →
        (t.solve options direction cost).pivotsIn .two = [])) ∧
    ∀ (m : Nat) (t : Tableau F L m) (eps : F),
      (∀ mode, t.enteringColumn? eps mode = none ↔ ∀ j ∈ t.candidates, ¬ t.cost j < -eps) ∧
      (∀ j, t.enteringColumn? eps .careful = some j ↔
        j ∈ t.profitable eps ∧ ∀ k ∈ t.profitable eps, j ≤ k) ∧
      ∀ j, t.enteringColumn? eps .greedy = some j ↔
        (j ∈ t.profitable eps ∧ ∀ k ∈ t.profitable eps, ¬ t.cost k < t.cost j) ∧
        ∀ k ∈ t.profitable eps, (∀ l ∈ t.profitable eps, ¬ t.cost l < t.cost k) → j ≤ k := by
  refine ⟨fun m t x phase eps threshold left pivots => ?_, fun options direction cost t c hrule hc => ?_,
    fun m t eps => ⟨?_, ?_, ?_⟩⟩
  · -- before the first pivot there is no history
    obtain ⟨turns, last, h⟩ := exists_account (E := E) phase eps threshold left pivots [] x t
    exact ⟨turns, last, h.linked, h.pivotsIn_eq, h.chooses, h.concludes⟩
  · have hstrategy : options.strategy = .adaptive options.degeneracyThreshold 0 := by
      rw [Options.strategy, hrule]
      rfl
    obtain ⟨hfeasible, hnone⟩ := pivotsIn_two_runPhases options direction c t
    rw [pivotsIn_solve .one direction hc, pivotsIn_solve .two direction hc, ← hstrategy]
    exact ⟨pivotsIn_one_runPhases options direction c t, hfeasible, hnone⟩
  · exact t.enteringColumn?_eq_none_iff_not_lt eps
  · exact fun j => enteringColumn?_careful_eq_some_iff
  · exact fun j => enteringColumn?_greedy_eq_some_iff

/-- On `stalling` with threshold one, the second phase makes three pivots, each in the mode that the steps before it ask
    for. -/
theorem modes_follow_steps_stalling : ∃ c basis,
    (stalling.prepare (⟨1/8, none, .dantzigThenBland, 1⟩ : Options ℚ) [-1, -2, -3]).result = .ok c ∧
    (stalling.findFeasible (⟨1/8, none, .dantzigThenBland, 1⟩ : Options ℚ) (Vector.replicate _ 0)).result =
      .ok (.feasible basis) ∧
    ∃ turns last, Turn.Linked (1/8) (basis.tableau.loadCost .minimize c) turns last ∧
      (stalling.solve (⟨1/8, none, .dantzigThenBland, 1⟩ : Options ℚ) .minimize [-1, -2, -3]).pivotsIn .two =
        Turn.events .two (1/8) (basis.pivots + 1) turns ∧ turns.length = 3 ∧
      ∀ (k : Nat) (c : Turn ℚ ⟨3, 2, 0, 0⟩ _), turns[k]? = some c →
        c.tableau.Chooses (1/8) (.after 1 (1/8) ((turns.take k).map Turn.step)) c.column c.row := by
  have hlength : ((stalling.solve (⟨1/8, none, .dantzigThenBland, 1⟩ : Options ℚ) .minimize
      [-1, -2, -3]).pivotsIn .two).length = 3 := by decide +kernel
  have hbegin : (match (stalling.prepare (⟨1/8, none, .dantzigThenBland, 1⟩ : Options ℚ) [-1, -2, -3]).result,
      (stalling.findFeasible (⟨1/8, none, .dantzigThenBland, 1⟩ : Options ℚ) (Vector.replicate _ 0)).result with
      | .ok _, .ok (.feasible _) => true
      | _, _ => false) = true := by decide +kernel
  obtain ⟨hturns, hphases, -⟩ := modes_follow_steps (F := ℚ) (E := ℚ) (L := ⟨3, 2, 0, 0⟩)
  split at hbegin
  · rename_i c basis hc hf
    obtain ⟨-, htwo, -⟩ := hphases ⟨1/8, none, .dantzigThenBland, 1⟩ .minimize [-1, -2, -3] stalling c rfl hc
    obtain ⟨turns, last, hlinked, hevents, hchooses, -⟩ :=
      hturns _ (basis.tableau.loadCost .minimize c) basis.values .two (1/8) 1
        (Options.limit (⟨1/8, none, .dantzigThenBland, 1⟩ : Options ℚ) - basis.pivots) basis.pivots
    have hsame := (htwo basis hf).trans hevents
    refine ⟨c, basis, hc, hf, turns, last, hlinked, hsame, ?_, hchooses⟩
    rw [hsame, Turn.events, List.length_map, List.length_zipIdx] at hlength
    exact hlength
  · cases hbegin

end Tableau

end Simplex
