/-
  The limit on pivots only cuts a run off.

  A run under one limit is compared with the run under any other: either both end alike, or the one with the
  lower limit stops with an error that names its limit and the phase it was in.  Nothing here asks for laws of
  the numbers.

  1. `Truncates` — this comparison, for a computation that finds some pivots made and makes more; it goes through
     sequences (`Truncates.bind`) and through a single pivot that is refused at the limit (`Truncates.step`).
  2. `Tableau.truncates_descend`, `Tableau.truncates_driveOut` — the two loops that make pivots.
  3. `Tableau.truncates_findFeasible`, `Tableau.truncates_improve` — the two phases; the second one goes on
     counting where the first one stopped.
  4. `Tableau.solve_truncates` — both together.
-/
import Mathlib.Data.Rat.Lemmas
import Simplex.Proofs.Descent

namespace Simplex

/-! ## How a sequence fails -/

section Except

variable {ε α β : Type} {x : Except ε α} {e : ε}

/-- A sequence that fails does so in one of its parts. -/
theorem error_of_bind {f : α → Except ε β} (h : (x >>= f) = .error e) :
    x = .error e ∨ ∃ a, x = .ok a ∧ f a = .error e := by
  cases x with
  | error e' =>
    cases h
    exact Or.inl rfl
  | ok a => exact Or.inr ⟨a, rfl, h⟩

theorem error_of_map {f : α → β} (h : x.map f = .error e) : x = .error e := by
  cases x with
  | error e' =>
    cases h
    rfl
  | ok a => cases h

end Except

/-! ## Computations under a limit -/

section

variable {F E α β : Type}

/-- `run n` is a computation under the limit `n`; `start` pivots were made before it, and `count a` at its end
    with `a`. -/
structure Truncates (phase : Phase) (start : Nat) (count : α → Nat)
    (run : Nat → Except (SolveError F E) α) : Prop where
  within : ∀ {n a}, start ≤ n → run n = .ok a → start ≤ count a ∧ count a ≤ n
  same : ∀ {n k a}, start ≤ n → run n = .ok a → count a ≤ k → run k = .ok a
  stopped : ∀ {n k a}, start ≤ n → run n = .ok a → start ≤ k → k < count a →
    run k = .error (.pivotLimit phase k)
  reported : ∀ {n p k}, start ≤ n → run n = .error (.pivotLimit p k) → k = n

namespace Truncates

variable {phase : Phase} {start : Nat} {count : α → Nat} {count' : β → Nat}
  {run : Nat → Except (SolveError F E) α}

/-- A result that takes no pivot. -/
theorem ok (a : α) (h : count a = start) :
    Truncates (F := F) (E := E) phase start count fun _ => .ok a where
  within hn hb := by
    cases hb
    omega
  same _ hb _ := hb
  stopped _ hb hk hlt := by
    cases hb
    omega
  reported _ he := by cases he

/-- A failure that has nothing to do with the limit. -/
theorem fail {e : SolveError F E} (h : ∀ p k, e ≠ .pivotLimit p k) :
    Truncates phase start count fun _ => .error e where
  within _ hb := by cases hb
  same _ hb _ := by cases hb
  stopped _ hb _ _ := by cases hb
  reported _ he := by
    cases he
    exact absurd rfl (h _ _)

/-- First one computation, then another one that goes on counting. -/
theorem bind (h : Truncates phase start count run) {next : α → Nat → Except (SolveError F E) β}
    (hnext : ∀ a, start ≤ count a → Truncates phase (count a) count' (next a)) :
    Truncates phase start count' fun n => run n >>= fun a => next a n := by
  -- what ends well has ended well on the way, and under the same limit
  have hsplit : ∀ {n b}, start ≤ n → (run n >>= fun a => next a n) = .ok b →
      ∃ a, run n = .ok a ∧ next a n = .ok b ∧ start ≤ count a ∧ count a ≤ n ∧
        Truncates phase (count a) count' (next a) := by
    intro n b hn hb
    cases ha : run n with
    | error e => rw [ha] at hb; cases hb
    | ok a =>
      rw [ha] at hb
      obtain ⟨hlow, hhigh⟩ := h.within hn ha
      exact ⟨a, rfl, hb, hlow, hhigh, hnext a hlow⟩
  constructor
  · intro n b hn hb
    obtain ⟨a, -, hb, hlow, hhigh, hrest⟩ := hsplit hn hb
    have := hrest.within hhigh hb
    omega
  · intro n k b hn hb hk
    obtain ⟨a, ha, hb, hlow, hhigh, hrest⟩ := hsplit hn hb
    have hcount := hrest.within hhigh hb
    show (run k >>= fun a => next a k) = .ok b
    rw [h.same hn ha (by omega)]
    exact hrest.same hhigh hb hk
  · intro n k b hn hb hk hlt
    obtain ⟨a, ha, hb, hlow, hhigh, hrest⟩ := hsplit hn hb
    show (run k >>= fun a => next a k) = _
    rcases Nat.lt_or_ge k (count a) with hka | hka
    · rw [h.stopped hn ha hk hka]
      rfl
    · rw [h.same hn ha hka]
      exact hrest.stopped hhigh hb hka hlt
  · intro n p k hn he
    rcases error_of_bind he with ha | ⟨a, ha, hrest⟩
    · exact h.reported hn ha
    · obtain ⟨hlow, hhigh⟩ := h.within hn ha
      exact (hnext a hlow).reported hhigh hrest

/-- Looking at the result differently takes no pivot. -/
theorem map (h : Truncates phase start count run) (f : α → β)
    (hf : ∀ a, start ≤ count a → count' (f a) = count a) :
    Truncates phase start count' fun n => (run n).map f := by
  have hmap : (fun n => (run n).map f) = fun n => run n >>= fun a => .ok (f a) := by
    funext n
    cases run n <;> rfl
  rw [hmap]
  exact h.bind fun a ha => ok (f a) (hf a ha)

/-- One pivot, which is refused at the limit, and then the rest. -/
theorem step (h : Truncates phase (start + 1) count run) : Truncates phase start count fun n =>
    if n ≤ start then .error (.pivotLimit phase start) else run n := by
  constructor
  · intro n a hn ha
    split at ha
    · cases ha
    · have := h.within (by omega) ha
      omega
  · intro n k a hn ha hk
    split at ha
    · cases ha
    · have hcount := h.within (by omega) ha
      rw [if_neg (by omega)]
      exact h.same (by omega) ha hk
  · intro n k a hn ha hk hlt
    split at ha
    · cases ha
    · rcases Nat.lt_or_ge start k with hlater | hnow
      · rw [if_neg (by omega)]
        exact h.stopped (by omega) ha (by omega) hlt
      · obtain rfl : k = start := by omega
        rw [if_pos (Nat.le_refl k)]
  · intro n p k hn he
    split at he
    · cases he
      omega
    · exact h.reported (by omega) he

end Truncates

end

namespace Tableau

variable {F E : Type} {L : Layout} {m : Nat} [Scalar F]

/-! ## The two loops -/

section Loops

variable {phase : Phase} {eps : F}

/-- A descent is at its end, whatever the limit, or chooses a pivot. -/
theorem ends_or_chooses (phase : Phase) (eps : F) (pivots : Nat) (s : Strategy) (x : Vector F L.columns)
    (t : Tableau F L m) : (∃ status, ∀ left,
      (t.descend (E := E) phase eps left pivots s x).result = .ok ⟨status, t, t.writeSolution x, pivots⟩) ∨
      ∃ j i, t.Chooses eps s.mode j i := by
  rcases t.choice_cases eps s.mode with hj | ⟨j, hj, hi⟩ | hc
  · exact Or.inl ⟨.optimal, fun _ => result_descend_of_optimal hj⟩
  · exact Or.inl ⟨.unbounded j, fun _ => result_descend_of_unlimited hj hi⟩
  · exact Or.inr hc

/-- A descent that ends has used some of the pivots it was allowed.  Allowing more changes nothing, and allowing
    fewer stops it there. -/
theorem exists_used_of_descend (left pivots : Nat) (s : Strategy) (x : Vector F L.columns) (t : Tableau F L m)
    {d : Descent F L m} (hd : (t.descend (E := E) phase eps left pivots s x).result = .ok d) :
    ∃ used, used ≤ left ∧ d.pivots = pivots + used ∧
      (∀ k, used ≤ k → (t.descend (E := E) phase eps k pivots s x).result = .ok d) ∧
      ∀ k, k < used → (t.descend (E := E) phase eps k pivots s x).result =
        .error (.pivotLimit phase (pivots + k)) := by
  rcases t.ends_or_chooses phase eps pivots s x with ⟨status, hend⟩ | ⟨j, i, hc⟩
  · rw [hend left] at hd
    cases hd
    exact ⟨0, by omega, rfl, fun k _ => hend k, fun k hk => by omega⟩
  · cases left with
    | zero =>
      rw [result_descend_zero hc] at hd
      cases hd
    | succ left =>
      rw [result_descend_succ hc] at hd
      obtain ⟨used, hle, hcount, hsame, hstop⟩ := exists_used_of_descend left _ _ _ _ hd
      refine ⟨used + 1, by omega, by omega, ?_, ?_⟩
      · intro k hk
        obtain ⟨k, rfl⟩ : ∃ l, k = l + 1 := ⟨k - 1, by omega⟩
        rw [result_descend_succ hc]
        exact hsame k (by omega)
      · intro k hk
        cases k with
        | zero => exact result_descend_zero hc
        | succ k =>
          rw [result_descend_succ hc, hstop k (by omega), Nat.add_right_comm]
          rfl

/-- A descent fails only at the limit. -/
theorem error_of_descend (left pivots : Nat) (s : Strategy) (x : Vector F L.columns) (t : Tableau F L m)
    {e : SolveError F E} (he : (t.descend phase eps left pivots s x).result = .error e) :
    e = .pivotLimit phase (pivots + left) := by
  rcases t.ends_or_chooses (E := E) phase eps pivots s x with ⟨status, hend⟩ | ⟨j, i, hc⟩
  · rw [hend left] at he
    cases he
  · cases left with
    | zero =>
      rw [result_descend_zero hc] at he
      cases he
      rfl
    | succ left =>
      rw [result_descend_succ hc] at he
      rw [error_of_descend left _ _ _ _ he, Nat.add_right_comm]
      rfl

theorem truncates_descend (phase : Phase) (eps : F) (pivots : Nat) (s : Strategy) (x : Vector F L.columns)
    (t : Tableau F L m) : Truncates phase pivots (·.pivots) fun n =>
      (t.descend (E := E) phase eps (n - pivots) pivots s x).result := by
  constructor
  · intro n d _ hd
    obtain ⟨used, hle, hcount, -, -⟩ := exists_used_of_descend _ _ _ _ _ hd
    omega
  · intro n k d _ hd hk
    obtain ⟨used, -, hcount, hsame, -⟩ := exists_used_of_descend _ _ _ _ _ hd
    exact hsame _ (by omega)
  · intro n k d _ hd hk hlt
    obtain ⟨used, -, hcount, -, hstop⟩ := exists_used_of_descend _ _ _ _ _ hd
    show (t.descend phase eps (k - pivots) pivots s x).result = _
    rw [hstop (k - pivots) (by omega)]
    congr 2
    omega
  · intro n p k hn he
    cases error_of_descend _ _ _ _ _ he
    omega

/-- Every exchange of an artificial variable is one pivot more. -/
theorem truncates_driveOut (eps : F) : ∀ (is : List (Fin m)) (pivots : Nat) (t : Tableau F L m),
    Truncates .one pivots (·.pivots) fun n => (driveOut (E := E) eps n is pivots t).result
  | [], pivots, t => .ok (⟨t, [], pivots⟩ : DrivenOut F L m) rfl
  | i :: rest, pivots, t => by
    cases h : t.replacement? eps i with
    | none =>
      have hrun : (fun n => (driveOut (E := E) eps n (i :: rest) pivots t).result) = fun n =>
          (driveOut (E := E) eps n rest pivots t).result.map
            fun out => { out with redundant := i :: out.redundant } :=
        funext fun n => result_driveOut_of_none h
      rw [hrun]
      exact (truncates_driveOut eps rest pivots t).map _ fun _ _ => rfl
    | some j =>
      have hrun : (fun n => (driveOut (E := E) eps n (i :: rest) pivots t).result) = fun n =>
          if n ≤ pivots then .error (.pivotLimit .one pivots)
          else (driveOut (E := E) eps n rest (pivots + 1) ((t.clearLevel i).pivot eps j i)).result := by
        funext n
        split
        · exact result_driveOut_of_limit h ‹_›
        · exact result_driveOut_of_some h ‹_›
      rw [hrun]
      exact (truncates_driveOut eps rest (pivots + 1) _).step

end Loops

/-! ## The two phases -/

end Tableau

/-- The pivots made by the end of the first phase. -/
def Feasibility.pivots {F : Type} {L : Layout} : Feasibility F L → Nat
  | .infeasible _ pivots => pivots
  | .feasible basis => basis.pivots

namespace Tableau

variable {F E : Type} {L : Layout} {m : Nat} [Scalar F] [Tolerance F E]

theorem truncates_expelArtificials (options : Options E) (pivots : Nat) (t : Tableau F L m) :
    Truncates .one pivots (·.pivots) fun n =>
      (t.expelArtificials (options.withLimit n) pivots).result := by
  have hrun : (fun n => (t.expelArtificials (options.withLimit n) pivots).result) = fun n =>
      (driveOut (E := E) (Tolerance.read options.eps) n t.artificialBasics pivots t).result.map
        fun out => { out with redundant := out.redundant.mergeSort fun i k => i ≤ k } :=
    funext fun n => result_expelArtificials t (options.withLimit n) pivots
  rw [hrun]
  exact (truncates_driveOut _ _ pivots t).map _ fun _ _ => rfl

/-- The first phase counts from nothing. -/
theorem truncates_findFeasible (options : Options E) (x : Vector F L.columns) (t : Tableau F L L.rows) :
    Truncates .one 0 Feasibility.pivots fun n => (t.findFeasible (options.withLimit n) x).result := by
  have hrun := funext fun n => result_findFeasible_eq t (options.withLimit n) x
  rw [hrun]
  refine (truncates_descend .one (Tolerance.read options.eps) 0 options.strategy x t.loadArtificial).bind ?_
  intro d _
  cases d.status with
  | unbounded j =>
    exact .fail fun p k h => (nomatch h)
  | optimal =>
    show Truncates .one d.pivots Feasibility.pivots fun n =>
      if (Tolerance.read options.eps : F) < d.tableau.value then .ok (.infeasible d.tableau d.pivots)
      else (d.tableau.expelArtificials (options.withLimit n) d.pivots).result.map fun out =>
        .feasible (out.handOver d.values)
    by_cases hv : (Tolerance.read options.eps : F) < d.tableau.value
    · simp only [if_pos hv]
      exact .ok _ rfl
    · simp only [if_neg hv]
      exact (truncates_expelArtificials options d.pivots d.tableau).map _ fun _ _ => rfl

/-- The second phase counts on from where the first one stopped. -/
theorem truncates_improve (options : Options E) (direction : Direction) (cost : Vector F L.decision)
    (pivots : Nat) (x : Vector F L.columns) (t : Tableau F L m) : Truncates .two pivots (·.pivots.total) fun n =>
      (t.improve (options.withLimit n) direction cost pivots x).result := by
  have hrun := funext fun n => result_improve_eq (options.withLimit n) direction cost pivots x t
  rw [hrun]
  refine (truncates_descend .two (Tolerance.read options.eps) pivots options.strategy x
    (t.loadCost direction cost)).map _ ?_
  intro d hd
  show pivots + (d.pivots - pivots) = d.pivots
  omega

theorem phaseOne_of_improve {options : Options E} {direction : Direction} {cost : Vector F L.decision}
    {pivots : Nat} {x : Vector F L.columns} {t : Tableau F L m} {o : Outcome F L}
    (ho : (t.improve options direction cost pivots x).result = .ok o) : o.pivots.phaseOne = pivots := by
  rw [result_improve_eq] at ho
  cases hd : ((t.loadCost direction cost).descend (E := E) .two (Tolerance.read options.eps)
    (options.limit - pivots) pivots options.strategy x).result with
  | error e => rw [hd] at ho; cases ho
  | ok d =>
    rw [hd] at ho
    cases ho
    rfl

/-! ## Both phases -/

section Both

variable {options : Options E} {direction : Direction} {cost : Vector F L.decision}
  {t : Tableau F L L.rows}

/-- Both phases under one limit that is not hit, and under any other. -/
theorem result_runPhases_of_ok {n : Nat} {o : Outcome F L}
    (ho : (t.runPhases (options.withLimit n) direction cost).result = .ok o) :
    o.pivots.total ≤ n ∧
      (∀ k, o.pivots.total ≤ k → (t.runPhases (options.withLimit k) direction cost).result = .ok o) ∧
      ∀ k, k < o.pivots.total → (t.runPhases (options.withLimit k) direction cost).result =
        .error (.pivotLimit (if k < o.pivots.phaseOne then .one else .two) k) := by
  have hone := t.truncates_findFeasible options (Vector.replicate _ 0)
  cases hf : (t.findFeasible (options.withLimit n) (Vector.replicate _ 0)).result with
  | error e => rw [result_runPhases_eq, hf] at ho; cases ho
  | ok f =>
    have hpivots := (hone.within (Nat.zero_le n) hf).2
    have hsame : ∀ k, f.pivots ≤ k → (t.findFeasible (options.withLimit k) (Vector.replicate _ 0)).result = .ok f :=
      fun k => hone.same (Nat.zero_le n) hf
    have hstop : ∀ k, k < f.pivots → (t.runPhases (options.withLimit k) direction cost).result =
        .error (.pivotLimit .one k) := by
      intro k hk
      rw [result_runPhases_eq, hone.stopped (Nat.zero_le n) hf (Nat.zero_le k) hk]
      rfl
    rw [result_runPhases_eq, hf] at ho
    cases f with
    | infeasible final pivots =>
      cases ho
      refine ⟨hpivots, fun k hk => ?_, fun k hk => ?_⟩
      · rw [result_runPhases_eq, hsame k hk]
        rfl
      · have hlt : k < pivots := hk
        rw [hstop k hlt, if_pos hlt]
    | feasible basis =>
      have htwo := basis.tableau.truncates_improve options direction cost basis.pivots basis.values
      have hcount := htwo.within hpivots ho
      have hfirst : o.pivots.phaseOne = basis.pivots := phaseOne_of_improve ho
      have hnext : ∀ k, basis.pivots ≤ k → (t.runPhases (options.withLimit k) direction cost).result =
          (basis.tableau.improve (options.withLimit k) direction cost basis.pivots basis.values).result := by
        intro k hk
        rw [result_runPhases_eq, hsame k hk]
        rfl
      refine ⟨hcount.2, fun k hk => ?_, fun k hk => ?_⟩
      · rw [hnext k (by omega)]
        exact htwo.same hpivots ho hk
      · rw [hfirst]
        rcases Nat.lt_or_ge k basis.pivots with hlt | hge
        · rw [hstop k hlt, if_pos hlt]
        · rw [hnext k hge, if_neg (by omega)]
          exact htwo.stopped hpivots ho hge hk

/-- A limit that is hit is reported. -/
theorem eq_of_runPhases_eq_error {n k : Nat} {phase : Phase}
    (he : (t.runPhases (options.withLimit n) direction cost).result = .error (.pivotLimit phase k)) :
    k = n := by
  have hone := t.truncates_findFeasible options (Vector.replicate _ 0)
  rw [result_runPhases_eq] at he
  rcases error_of_bind he with hf | ⟨f, hf, hrest⟩
  · exact hone.reported (Nat.zero_le n) hf
  · cases f with
    | infeasible final pivots => cases hrest
    | feasible basis =>
      exact (basis.tableau.truncates_improve options direction cost basis.pivots basis.values).reported
        (hone.within (Nat.zero_le n) hf).2 hrest

/-- Before the phases, a run is refused for its tolerance or for its costs. -/
theorem error_of_prepare {options : Options E} {cost : List F} {t : Tableau F L m} {e : SolveError F E}
    (he : (t.prepare options cost).result = .error e) :
    e = .invalidTolerance options.eps ∨ ∃ cause, checkCost L cost = .error cause ∧ e = .inconsistent cause := by
  rw [prepare, Journal.result_bind] at he
  rcases error_of_bind he with hcheck | ⟨-, -, hrest⟩
  · simp only [Journal.result_ofExcept, Options.check] at hcheck
    split at hcheck
    · cases hcheck
    · cases hcheck
      exact Or.inl rfl
  · rw [Journal.result_bind] at hrest
    rcases error_of_bind hrest with hcost | ⟨c, -, hnote⟩
    · cases hc : checkCost L cost with
      | ok c => rw [hc] at hcost; cases hcost
      | error cause =>
        rw [hc] at hcost
        cases hcost
        exact Or.inr ⟨cause, rfl, rfl⟩
    · cases hnote

/-- A run that passes the checks goes through both phases, whatever the limit. -/
theorem result_solve_cases (options : Options E) (direction : Direction) (cost : List F)
    (t : Tableau F L L.rows) :
    (∃ e, (∀ phase k, e ≠ .pivotLimit phase k) ∧
      ∀ n, (t.solve (options.withLimit n) direction cost).result = .error e) ∨
    ∃ c, ∀ n, (t.solve (options.withLimit n) direction cost).result =
      (t.runPhases (options.withLimit n) direction c).result := by
  -- the checks do not look at the limit
  have hsame : ∀ n, (t.prepare (options.withLimit n) cost).result = (t.prepare options cost).result :=
    fun _ => rfl
  cases hc : (t.prepare options cost).result with
  | error e =>
    refine Or.inl ⟨e, ?_, ?_⟩
    · rintro phase k rfl
      rcases error_of_prepare hc with he | ⟨_, -, he⟩
      · cases he
      · cases he
    · intro n
      rw [result_solve_eq, hsame, hc]
      rfl
  | ok c =>
    refine Or.inr ⟨c, ?_⟩
    intro n
    rw [result_solve_eq, hsame, hc]
    rfl

end Both

/-- A run that sets no limit is limited by the count. -/
theorem solve_withLimit_limit (options : Options E) (direction : Direction) (cost : List F)
    (t : Tableau F L L.rows) :
    t.solve (options.withLimit options.limit) direction cost = t.solve options direction cost := rfl

/-- **The limit only cuts a run off.**  If a run ends with an outcome, under whatever limit, it ends with the same
    outcome under every limit that is at least its number of pivots; under a lower limit it stops with an error
    that names this limit and the phase in which it was reached.  So no outcome has more pivots than were allowed,
    and an error about the limit always names the one that was set. -/
theorem solve_truncates (options : Options E) (direction : Direction) (cost : List F)
    (t : Tableau F L L.rows) :
    (∀ o, (t.solve options direction cost).result = .ok o →
      (∀ n, o.pivots.total ≤ n → (t.solve (options.withLimit n) direction cost).result = .ok o) ∧
      ∀ n, n < o.pivots.total → (t.solve (options.withLimit n) direction cost).result =
        .error (.pivotLimit (if n < o.pivots.phaseOne then .one else .two) n)) ∧
    ∀ n, (∀ o, (t.solve (options.withLimit n) direction cost).result = .ok o → o.pivots.total ≤ n) ∧
      ∀ phase k, (t.solve (options.withLimit n) direction cost).result =
        .error (.pivotLimit phase k) → k = n := by
  rw [← solve_withLimit_limit]
  rcases result_solve_cases options direction cost t with ⟨e, hne, he⟩ | ⟨c, hc⟩
  · simp only [he]
    refine ⟨fun o ho => (nomatch ho), fun n => ⟨fun o ho => (nomatch ho), fun phase k hk => ?_⟩⟩
    exact absurd (Except.error.inj hk) (hne phase k)
  · simp only [hc]
    refine ⟨fun o ho => (result_runPhases_of_ok ho).2, fun n => ⟨fun o ho => ?_, fun phase k hk => ?_⟩⟩
    · exact (result_runPhases_of_ok ho).1
    · exact eq_of_runPhases_eq_error hk

/-- A variable between one and four: one pivot to get above one, and one to get up to four. -/
def between : Tableau ℚ ⟨1, 1, 1, 0⟩ 2 := fill ⟨1, 1, 1, 0⟩ [[1, 1, 0, 0], [1, 0, -1, 1]] [4, 1]

/-- The largest value of the variable of `between` takes one pivot in each phase.  With none allowed the run stops
    in the first phase, with one it stops in the second, and from two on it ends. -/
theorem solve_truncates_between : ∃ o,
    (between.solve (⟨1/8, none, .dantzig, 0⟩ : Options ℚ) .maximize [1]).result = .ok o ∧
      o.pivots = ⟨1, 1⟩ ∧
      (∀ n, 2 ≤ n → (between.solve (⟨1/8, some n, .dantzig, 0⟩ : Options ℚ) .maximize [1]).result = .ok o) ∧
      (between.solve (⟨1/8, some 0, .dantzig, 0⟩ : Options ℚ) .maximize [1]).result =
        .error (.pivotLimit .one 0) ∧
      (between.solve (⟨1/8, some 1, .dantzig, 0⟩ : Options ℚ) .maximize [1]).result =
        .error (.pivotLimit .two 1) := by
  have hsolve := solve_truncates (⟨1/8, none, .dantzig, 0⟩ : Options ℚ) .maximize [1] between
  have hpivots : (between.solve (⟨1/8, none, .dantzig, 0⟩ : Options ℚ) .maximize
      [1]).result.toOption.map (·.pivots) = some ⟨1, 1⟩ := by decide +kernel
  cases hrun : (between.solve (⟨1/8, none, .dantzig, 0⟩ : Options ℚ) .maximize [1]).result with
  | error e => rw [hrun] at hpivots; cases hpivots
  | ok o =>
    have ho : o.pivots = ⟨1, 1⟩ := by
      rw [hrun] at hpivots
      exact Option.some.inj hpivots
    obtain ⟨hsame, hstop⟩ := hsolve.1 o hrun
    simp only [ho, PivotCount.total] at hsame hstop
    exact ⟨o, rfl, ho, hsame, hstop 0 (by omega), hstop 1 (by omega)⟩

end Tableau

end Simplex
