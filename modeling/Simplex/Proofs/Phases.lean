/-
  What the two phases find.

  Everything here is about a tableau before any pivot (`Fresh`) and a tolerance that resolves the two problems
  it poses: the artificial one, and the one of the program.

  1. The first phase: the artificial cost can not fall without end, since it is a sum of nonnegative numbers.
     Its least value is positive, and then no point is without artificial variables, or it is zero, and then the
     basis is freed of them (`Fresh.answers_of_findFeasible`).
  2. The second phase: what its descent ends with is what the verdict says (`HandedOver.answers_of_improve`).
  3. Both phases (`Fresh.answers_of_runPhases`): the verdict is right.
  4. Both phases end (`Fresh.exists_runPhases`), if the strategy turns careful and enough pivots are allowed:
     the outcome is then the same whatever the limit.
-/
import Simplex.Proofs.Bland
import Simplex.Proofs.Expulsion

namespace Simplex

variable {F : Type} [Field F] [LinearOrder F] {L : Layout} {m : Nat}

/-! ## The sum of the artificial variables -/

namespace Layout

variable [IsStrictOrderedRing F] {x : Fin L.columns → F}

omit [IsStrictOrderedRing F] in
theorem artificialTerm_nonneg (hx : ∀ j, 0 ≤ x j) (j : Fin L.columns) :
    0 ≤ if L.isArtificial j = true then x j else 0 := by
  split
  · exact hx j
  · exact le_refl 0

/-- At nonnegative values the sum of the artificial variables is not negative. -/
theorem artificialSum_nonneg (hx : ∀ j, 0 ≤ x j) : 0 ≤ L.artificialSum x :=
  Finset.sum_nonneg fun j _ => artificialTerm_nonneg hx j

/-- The sum of the artificial variables of a nonnegative point is zero exactly when all of them are. -/
theorem artificialSum_eq_zero_iff (hx : ∀ j, 0 ≤ x j) :
    L.artificialSum x = 0 ↔ L.WithoutArtificials x := by
  rw [artificialSum, Finset.sum_eq_zero_iff_of_nonneg fun j _ => artificialTerm_nonneg hx j]
  constructor
  · intro h j hj
    have hzero := h j (Finset.mem_univ j)
    rw [if_pos hj] at hzero
    exact hzero
  · intro h j _
    by_cases hj : L.isArtificial j = true
    · rw [if_pos hj, h j hj]
    · rw [if_neg hj]

end Layout

/-! ## Before any pivot -/

namespace Tableau

/-- A tableau before any pivot: feasible, every column eligible, artificial variables basic in their rows. -/
structure Fresh (t : Tableau F L m) : Prop where
  canonical : t.Canonical
  feasible : t.Feasible
  eligible : ∀ j, t.isEligible j = true
  artificial_iff : ∀ i, L.isArtificial (t.basic i) = true ↔ L.less ≤ i.val

/-- With the artificial objective, a first tableau presents the problem of the first phase. -/
theorem Fresh.presents_loadArtificial {t : Tableau F L m} (h : t.Fresh) :
    t.loadArtificial.Presents (.artificial t) :=
  .loadArtificial h.canonical h.artificial_iff h.eligible

/-- The objective does not touch the levels. -/
theorem Fresh.feasible_loadArtificial {t : Tableau F L m} (h : t.Fresh) :
    t.loadArtificial.Feasible := h.feasible

end Tableau

/-! ## The first phase -/

section PhaseOne

variable [IsStrictOrderedRing F] {t : Tableau F L m} {eps : F}

omit [IsStrictOrderedRing F] in
/-- A point of the artificial problem is a nonnegative solution. -/
theorem Problem.point_artificial_iff {x : Fin L.columns → F} :
    (Problem.artificial t).Point x ↔ t.Holds x ∧ ∀ j, 0 ≤ x j :=
  ⟨fun h => ⟨h.solves, h.nonneg⟩, fun h => ⟨Problem.within_artificial t x, h.1, h.2⟩⟩

omit [IsStrictOrderedRing F] in
/-- What the first phase minimises: the sums of the artificial variables over the nonnegative solutions of the rows.
    -/
theorem Problem.values_artificial (t : Tableau F L m) : (Problem.artificial t).values =
    {v | ∃ x : Fin L.columns → F, t.Holds x ∧ (∀ j, 0 ≤ x j) ∧ L.artificialSum x = v} := by
  simp only [Problem.values, Problem.point_artificial_iff, and_assoc]
  rfl

namespace Tableau

/-- The descent of the first phase ends at the least artificial cost. -/
theorem Fresh.descend (h : t.Fresh) (hr : (Problem.artificial t).ResolvedBy eps) (h0 : 0 < eps)
    {E : Type} {phase : Phase} {left pivots : Nat} {s : Strategy} {x : Vector F L.columns} {d : Descent F L m}
    (hd : (t.loadArtificial.descend (E := E) phase eps left pivots s x).result = .ok d) :
    d.status = .optimal ∧ d.tableau.Presents (.artificial t) ∧ d.tableau.Feasible ∧
      IsLeast (Problem.artificial t).values d.tableau.value := by
  obtain ⟨hp, hf, hend⟩ := h.presents_loadArtificial.descend h.feasible_loadArtificial hr h0 hd
  rw [Descent.Settles] at hend
  cases hs : d.status with
  | optimal =>
    rw [hs] at hend
    exact ⟨rfl, hp, hf, hend⟩
  | unbounded j =>
    rw [hs] at hend
    -- a sum of nonnegative numbers is not negative
    obtain ⟨x, hx, hneg⟩ := hend 0
    exact absurd hneg (not_lt.2 (Layout.artificialSum_nonneg hx.nonneg))

/-- At artificial cost zero, artificial basic variables are at level zero. -/
theorem Presents.readyToExpel {u : Tableau F L m} (hp : u.Presents (.artificial t))
    (hf : u.Feasible) (hv : u.value = 0) : u.ReadyToExpel (.artificial t) where
  presents := hp
  feasible := hf
  level_eq_zero i hi := by
    have hsum : L.artificialSum u.solutionAt = 0 := hp.objective_solutionAt.trans hv
    have hzero := (Layout.artificialSum_eq_zero_iff hf.solutionAt_nonneg).1 hsum _ hi
    rw [hp.canonical.solutionAt_basic] at hzero
    exact hzero

end Tableau

end PhaseOne

section FindFeasible

variable {t : Tableau F L L.rows} {options : Options F} {x : Vector F L.columns}

namespace Tableau

/-- After its descent, the first phase looks at the least sum of the artificial variables and then drives them out. -/
theorem result_findFeasible {d : Descent F L L.rows} (hd : (t.loadArtificial.descend (E := F) .one
      options.eps options.limit 0 options.strategy x).result = .ok d) (hs : d.status = .optimal) :
    (t.findFeasible options x).result =
      if options.eps < d.tableau.value then .ok (.infeasible d.tableau d.pivots)
      else (d.tableau.expelArtificials options d.pivots).result.map fun out => .feasible (out.handOver d.values) := by
  rw [result_findFeasible_eq, read_exact, hd]
  simp only [bind, Except.bind, hs]

end Tableau

variable [IsStrictOrderedRing F]

/-- Driving out artificial variables at level zero, with the redundant rows in order. -/
theorem Tableau.ReadyToExpel.expels_of_expelArtificials {first : Tableau F L m}
    (h : t.ReadyToExpel (.artificial first)) (hr : (Problem.artificial first).ResolvedBy options.eps)
    (h0 : 0 < options.eps) {pivots : Nat} {out : DrivenOut F L L.rows}
    (hout : (t.expelArtificials options pivots).result = .ok out) :
    Expels (.artificial first) t t.artificialBasics out := by
  obtain ⟨redundant, hdriven, hsorted⟩ := expelArtificials_eq_ok_iff.1 hout
  have hexp := driveOut_expels (fun _ => rfl) hr h0 _ _ _ _ t.nodup_artificialBasics h
    (fun i hi => mem_artificialBasics.1 hi) hdriven
  have hmem : ∀ i, i ∈ out.redundant ↔ i ∈ redundant := by
    intro i
    rw [hsorted, List.mem_mergeSort]
  refine ⟨hexp.ready, hexp.basic_eq, hexp.vacant, fun i hi hred => ?_, fun i hi => ?_⟩
  · exact hexp.replaced i hi fun h => hred ((hmem i).2 h)
  · exact hexp.redundant i ((hmem i).1 hi)

/-- This hands the problem over to the second phase. -/
theorem Tableau.ReadyToExpel.handedOver_of_expelArtificials {first : Tableau F L m}
    (h : t.ReadyToExpel (.artificial first)) (hr : (Problem.artificial first).ResolvedBy options.eps)
    (h0 : 0 < options.eps) {pivots : Nat} {out : DrivenOut F L L.rows}
    (hout : (t.expelArtificials options pivots).result = .ok out) :
    HandedOver first (out.handOver x).tableau := by
  have hexp := h.expels_of_expelArtificials hr h0 hout
  refine hexp.ready.handedOver hexp.redundant fun i hi => ?_
  by_cases hart : i ∈ t.artificialBasics
  · exact hexp.replaced i hart hi
  · rw [hexp.basic_eq i hart]
    exact Bool.of_not_eq_true fun h => hart (mem_artificialBasics.2 h)

/-- What the answer of the first phase says about the tableau it started from. -/
def Feasibility.Answers (first : Tableau F L m) : Feasibility F L → Prop
  | .infeasible final _ => 0 < final.value ∧ IsLeast (Problem.artificial first).values final.value
  | .feasible basis => first.HandedOver basis.tableau

/-- When a feasible basis is found, all artificial variables were at level zero before the last of them were driven
    out. -/
theorem Tableau.Fresh.readyToExpel_of_findFeasible (h : t.Fresh)
    (hr : (Problem.artificial t).ResolvedBy options.eps) (h0 : 0 < options.eps) {basis : FeasibleBasis F L}
    (hf : (t.findFeasible options x).result = .ok (.feasible basis)) :
    ∃ (d : Descent F L L.rows) (out : DrivenOut F L L.rows), d.tableau.ReadyToExpel (.artificial t) ∧
      (d.tableau.expelArtificials options d.pivots).result = .ok out ∧ basis = out.handOver d.values := by
  obtain ⟨d, hd, -, hv, out, hout, hbasis⟩ := findFeasible_eq_feasible hf
  obtain ⟨-, hp, hfeas, hleast⟩ := h.descend hr h0 hd
  -- the least value is not negative, and not positive by the test
  obtain ⟨x, hx, hsum⟩ := hleast.1
  have hnonneg : 0 ≤ d.tableau.value := hsum ▸ Layout.artificialSum_nonneg hx.nonneg
  have hnot : ¬ 0 < d.tableau.value := fun hpos => hv ((hp.lt_value_iff hr h0).2 hpos)
  exact ⟨d, out, hp.readyToExpel hfeas (le_antisymm (not_lt.1 hnot) hnonneg), hout, hbasis⟩

/-- **The first phase** answers right. -/
theorem Tableau.Fresh.answers_of_findFeasible (h : t.Fresh)
    (hr : (Problem.artificial t).ResolvedBy options.eps) (h0 : 0 < options.eps)
    {f : Feasibility F L} (hf : (t.findFeasible options x).result = .ok f) : f.Answers t := by
  cases f with
  | infeasible final pivots =>
    obtain ⟨d, hd, -, ⟨hv, hf⟩ | ⟨-, out, -, hf⟩⟩ := findFeasible_eq_ok hf
    · cases hf
      obtain ⟨-, -, -, hleast⟩ := h.descend hr h0 hd
      exact ⟨lt_trans h0 hv, hleast⟩
    · cases hf
  | feasible basis =>
    obtain ⟨d, out, hready, hout, rfl⟩ := h.readyToExpel_of_findFeasible hr h0 hf
    exact hready.handedOver_of_expelArtificials hr h0 hout

end FindFeasible

/-! ## The second phase -/

/-- The decision variables of a point. -/
def Layout.decisions (L : Layout) (x : Fin L.columns → F) : List F := (List.ofFn x).take L.decision

/-- What a verdict says about the problem whose objective is the oriented cost. -/
def Verdict.Answers (P : Problem F L) (direction : Direction) : Verdict F → Prop
  | .infeasible => ∀ x, ¬ P.Point x
  | .optimal s => ∃ x, P.Point x ∧ s.point = L.decisions x ∧
      s.value = direction.orient (P.objective x) ∧ ∀ y, P.Point y → P.objective x ≤ P.objective y
  | .unbounded => ∀ bound, ∃ x, P.Point x ∧ P.objective x < bound

/-- The verdict that is read off a descent. -/
def Descent.verdict (d : Descent F L m) (direction : Direction) : Verdict F :=
  match d.status with
  | .optimal => .optimal (d.solution direction)
  | .unbounded _ => .unbounded

section Improve

variable {t : Tableau F L m} {options : Options F} {direction : Direction}
  {cost : Vector F L.decision} {pivots : Nat} {x : Vector F L.columns}

namespace Tableau

theorem point_solution (t : Tableau F L m) (direction : Direction) :
    (t.solution direction).point = L.decisions t.solutionAt := by
  rw [solution, basicSolution, Vector.toList_ofFn]
  rfl

/-- The outcome is read off the descent of the second phase, whose pivots are counted on from the first. -/
theorem result_improve {d : Descent F L m} (hd : ((t.loadCost direction cost).descend (E := F) .two
      options.eps (options.limit - pivots) pivots options.strategy x).result = .ok d) :
    (t.improve options direction cost pivots x).result =
      .ok ⟨d.verdict direction, ⟨pivots, d.pivots - pivots⟩, ⟨m, d.tableau⟩⟩ := by
  rw [result_improve_eq, read_exact, hd]
  rfl

/-- An outcome of the second phase comes from a descent that ended. -/
theorem exists_descent_of_improve {o : Outcome F L}
    (ho : (t.improve options direction cost pivots x).result = .ok o) :
    ∃ d, ((t.loadCost direction cost).descend (E := F) .two options.eps (options.limit - pivots)
      pivots options.strategy x).result = .ok d := by
  obtain ⟨-, -, hbind⟩ := Journal.result_bind_eq_ok_iff.1 ho
  obtain ⟨d, hd, -⟩ := Journal.result_bind_eq_ok_iff.1 hbind
  exact ⟨d, hd⟩

variable {k : Nat} {first : Tableau F L k}

/-- With its objective, the tableau handed over presents the program. -/
theorem HandedOver.presents_loadCost (h : HandedOver first t) (direction : Direction)
    (cost : Vector F L.decision) :
    (t.loadCost direction cost).Presents (.program first.Holds direction cost) :=
  .loadCost h.canonical h.not_artificial h.eligible direction cost h.holds_iff

/-- **The second phase** answers right, and never finds the program infeasible. -/
theorem HandedOver.answers_of_improve [IsStrictOrderedRing F] (h : HandedOver first t)
    (hr : (Problem.program first.Holds direction cost).ResolvedBy options.eps)
    (h0 : 0 < options.eps) {o : Outcome F L}
    (ho : (t.improve options direction cost pivots x).result = .ok o) :
    o.verdict ≠ .infeasible ∧
      o.verdict.Answers (.program first.Holds direction cost) direction := by
  obtain ⟨d, hd⟩ := exists_descent_of_improve ho
  rw [result_improve hd] at ho
  cases ho
  have hloaded := h.presents_loadCost direction cost
  obtain ⟨hp, hf, hend⟩ := hloaded.descend h.feasible hr h0 hd
  obtain ⟨-, hvalues⟩ := values_of_descend hloaded.canonical.basic_injective hd
  rw [Descent.Settles] at hend
  show d.verdict direction ≠ .infeasible ∧ (d.verdict direction).Answers _ direction
  rw [Descent.verdict]
  cases hs : d.status with
  | optimal =>
    rw [hs] at hend
    show _ ∧ (Verdict.optimal (d.solution direction)).Answers _ direction
    rw [Descent.solution_eq hvalues]
    refine ⟨?_, d.tableau.solutionAt, hp.point_solutionAt hf, point_solution .., ?_, fun y hy => ?_⟩
    · intro h
      cases h
    · rw [hp.objective_solutionAt]
      rfl
    · rw [hp.objective_solutionAt]
      exact hend.2 ⟨y, hy, rfl⟩
  | unbounded j =>
    rw [hs] at hend
    refine ⟨?_, hend⟩
    intro h
    cases h

end Tableau

end Improve

/-- Did a run end with an optimal solution, and does it pass the test? -/
def endsOptimal {E : Type} (result : Except E (Outcome F L)) (test : Outcome F L → Solution F → Bool) : Bool :=
  match result with
  | .error _ => false
  | .ok o =>
    match o.verdict with
    | .optimal s => test o s
    | .infeasible => false
    | .unbounded => false

omit [Field F] [LinearOrder F] in
theorem exists_of_endsOptimal {E : Type} {result : Except E (Outcome F L)}
    {test : Outcome F L → Solution F → Bool} (h : endsOptimal result test = true) :
    ∃ o s, result = .ok o ∧ o.verdict = .optimal s ∧ test o s = true := by
  cases result with
  | error e => cases h
  | ok o =>
    simp only [endsOptimal] at h
    cases hv : o.verdict with
    | optimal s =>
      rw [hv] at h
      exact ⟨o, s, rfl, hv, h⟩
    | infeasible => rw [hv] at h; cases h
    | unbounded => rw [hv] at h; cases h

/-! ## Both phases -/

section Both

variable {t : Tableau F L L.rows} {options : Options F} {direction : Direction}
  {cost : Vector F L.decision}

/-- If the first phase finds no feasible basis, the run ends there. -/
theorem Tableau.result_runPhases_of_infeasible {final : Tableau F L L.rows} {pivots : Nat}
    (hf : (t.findFeasible options (Vector.replicate _ 0)).result = .ok (.infeasible final pivots)) :
    (t.runPhases options direction cost).result =
      .ok ⟨.infeasible, ⟨pivots, 0⟩, ⟨_, final⟩⟩ := by
  rw [runPhases, Journal.result_bind_of_ok hf]
  rfl

/-- Otherwise the second phase goes on with the basis, the count and the buffer of the first. -/
theorem Tableau.result_runPhases_of_feasible {basis : FeasibleBasis F L}
    (hf : (t.findFeasible options (Vector.replicate _ 0)).result = .ok (.feasible basis)) :
    (t.runPhases options direction cost).result =
      (basis.tableau.improve options direction cost basis.pivots basis.values).result := by
  rw [runPhases, Journal.result_bind_of_ok hf]

variable [IsStrictOrderedRing F]

/-- A positive least artificial cost leaves no point without artificial variables. -/
theorem Problem.not_point_program {first : Tableau F L m} {v : F} (hv : 0 < v)
    (hleast : IsLeast (Problem.artificial first).values v)
    (x : Fin L.columns → F) : ¬ (Problem.program first.Holds direction cost).Point x := by
  intro hx
  have hzero : L.artificialSum x = 0 :=
    (Layout.artificialSum_eq_zero_iff hx.nonneg).2 (Problem.within_program_iff.1 hx.within)
  have hpoint : (Problem.artificial first).Point x :=
    Problem.point_artificial_iff.2 ⟨hx.solves, hx.nonneg⟩
  exact absurd (hleast.2 ⟨x, hpoint, hzero⟩) (not_le.2 hv)

/-- **Both phases**: the verdict is right, and a tableau that shows a program to be infeasible shows the least
    sum of its artificial variables. -/
theorem Tableau.Fresh.answers_of_runPhases (h : t.Fresh)
    (hr₁ : (Problem.artificial t).ResolvedBy options.eps)
    (hr₂ : (Problem.program t.Holds direction cost).ResolvedBy options.eps) (h0 : 0 < options.eps)
    {o : Outcome F L} (ho : (t.runPhases options direction cost).result = .ok o) :
    o.verdict.Answers (.program t.Holds direction cost) direction ∧
      (o.verdict = .infeasible → IsLeast (Problem.artificial t).values o.final.tableau.value) := by
  obtain ⟨f, hf, -⟩ := Journal.result_bind_eq_ok_iff.1 ho
  have hans := h.answers_of_findFeasible hr₁ h0 hf
  cases f with
  | infeasible final pivots =>
    rw [result_runPhases_of_infeasible hf] at ho
    cases ho
    exact ⟨Problem.not_point_program hans.1 hans.2, fun _ => hans.2⟩
  | feasible basis =>
    rw [result_runPhases_of_feasible hf] at ho
    obtain ⟨hne, hanswers⟩ := HandedOver.answers_of_improve hans hr₂ h0 ho
    exact ⟨hanswers, fun hinf => absurd hinf hne⟩

/-! ## Both phases end -/

omit [IsStrictOrderedRing F] in
/-- The sweep ends once the limit leaves a pivot for each row, and a higher limit changes nothing. -/
theorem Tableau.exists_expelArtificials (t : Tableau F L m) (options : Options F)
    (pivots : Nat) : ∃ (enough : Nat) (out : DrivenOut F L m), ∀ n, enough ≤ n →
      (t.expelArtificials { options with maxPivots := some n } pivots).result = .ok out := by
  obtain ⟨out, hout⟩ := exists_driveOut (E := F) options.eps t.artificialBasics pivots t
  refine ⟨pivots + t.artificialBasics.length,
    { out with redundant := out.redundant.mergeSort fun i k => i ≤ k }, fun n hn => ?_⟩
  rw [result_expelArtificials]
  show Except.map _ (driveOut (E := F) options.eps n t.artificialBasics pivots t).result = _
  rw [hout n hn]
  rfl

variable (hs : options.strategy.TurnsCareful)
include hs

/-- The first phase ends if enough pivots are allowed, and then always the same way. -/
theorem Tableau.Fresh.exists_findFeasible (h : t.Fresh)
    (hr : (Problem.artificial t).ResolvedBy options.eps) (h0 : 0 < options.eps) (x : Vector F L.columns) :
    ∃ (enough : Nat) (f : Feasibility F L), ∀ n, enough ≤ n →
      (t.findFeasible { options with maxPivots := some n } x).result = .ok f := by
  have hacc := Position.acc_moves (a := ⟨t.loadArtificial, options.strategy⟩) hr h0
    h.presents_loadArtificial h.feasible_loadArtificial hs
  obtain ⟨enough, d, hd⟩ := Position.exists_descent (E := F) hacc .one 0 x
  have hopt : d.status = .optimal := (h.descend hr h0 (hd enough (le_refl enough))).1
  by_cases hv : options.eps < d.tableau.value
  · refine ⟨enough, .infeasible d.tableau d.pivots, ?_⟩
    intro n hn
    rw [result_findFeasible (hd n hn) hopt, if_pos hv]
  · obtain ⟨enough', out, hout⟩ := d.tableau.exists_expelArtificials options d.pivots
    refine ⟨max enough enough', .feasible (out.handOver d.values), ?_⟩
    intro n hn
    rw [result_findFeasible (hd n (by omega)) hopt, if_neg hv, hout n (by omega)]
    rfl

/-- The second phase ends if enough pivots are allowed, and then always the same way. -/
theorem Tableau.HandedOver.exists_improve {k : Nat} {first : Tableau F L k} {u : Tableau F L m}
    (h : HandedOver first u)
    (hr : (Problem.program first.Holds direction cost).ResolvedBy options.eps)
    (h0 : 0 < options.eps) (pivots : Nat) (x : Vector F L.columns) :
    ∃ (enough : Nat) (o : Outcome F L), ∀ n, enough ≤ n →
      (u.improve { options with maxPivots := some n } direction cost pivots x).result = .ok o := by
  have hacc := Position.acc_moves (a := ⟨u.loadCost direction cost, options.strategy⟩) hr h0
    (h.presents_loadCost direction cost) h.feasible hs
  obtain ⟨enough, d, hd⟩ := Position.exists_descent (E := F) hacc .two pivots x
  refine ⟨pivots + enough, _, fun n hn => result_improve (hd (n - pivots) (by omega))⟩

/-- **Termination.**  Both phases end if enough pivots are allowed, with the same outcome whatever the limit. -/
theorem Tableau.Fresh.exists_runPhases (h : t.Fresh)
    (hr₁ : (Problem.artificial t).ResolvedBy options.eps)
    (hr₂ : (Problem.program t.Holds direction cost).ResolvedBy options.eps) (h0 : 0 < options.eps) :
    ∃ (enough : Nat) (o : Outcome F L), ∀ n, enough ≤ n →
      (t.runPhases { options with maxPivots := some n } direction cost).result = .ok o := by
  obtain ⟨enough, f, hf⟩ := h.exists_findFeasible hs hr₁ h0 (Vector.replicate _ 0)
  cases f with
  | infeasible final pivots =>
    exact ⟨enough, _, fun n hn => result_runPhases_of_infeasible (hf n hn)⟩
  | feasible basis =>
    have hover : t.HandedOver basis.tableau := by
      refine h.answers_of_findFeasible ?_ ?_ (hf enough (le_refl enough))
      · exact hr₁
      · exact h0
    obtain ⟨enough', o, ho⟩ := hover.exists_improve hs hr₂ h0 basis.pivots basis.values
    refine ⟨max enough enough', o, ?_⟩
    intro n hn
    rw [result_runPhases_of_feasible (hf n (by omega))]
    exact ho n (by omega)

end Both

end Simplex
