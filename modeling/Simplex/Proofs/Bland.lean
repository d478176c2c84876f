/-
  The careful mode does not cycle.

  Suppose a descent never ends.  Its objective never rises, and there are finitely many bases, so from some pivot
  on it stays the same: every step has length zero.  An adaptive strategy then turns careful and stays so.  What
  remains is a run of careful pivots of length zero.

  1. `no_conflict` (the crux) — two careful pivots in tableaux of one problem with the same basic solution: the
     first one lets `q` enter, the second one lets `q` leave for `s`.  If no column above `q` became basic in
     between, this is impossible.  The objective falls along the ray of `s`, so some column `k` has a relative
     cost in the first tableau and a place on the ray of opposite signs; `k` is not above `q`, it is not `q`
     itself, and a column below `q` would have entered in its place or left in its place.
  2. `EndlessRun` — a descent that never ends; `exists_stall` — it stalls; `not_stalled` — and can not stall,
     because the highest column that enters again and again leaves in between.
  3. `acc_moves` — so every descent by a strategy that turns careful comes to an end.
-/
import Mathlib.Order.Filter.AtTopBot.Basic
import Mathlib.Order.Filter.Finite
import Mathlib.Data.Set.Finite.Lemmas
import Mathlib.Data.Set.Finite.Range
import Mathlib.Order.WellFounded
import Simplex.Proofs.Descent

namespace Simplex

variable {F : Type} [Field F] [LinearOrder F] {L : Layout} {m : Nat}

/-! ## Two careful pivots -/

namespace Tableau

variable [IsStrictOrderedRing F] {P : Problem F L} {eps : F} {t u v : Tableau F L m}

/-- Along a ray of one tableau, the relative costs of any other add up to the relative cost of the ray. -/
theorem Presents.eval_objective_ray_of_presents (hu : u.Presents P) (hv : v.Presents P)
    {s : Fin L.columns} (hs : P.allowed s = true) (hb : v.isBasic s = false) :
    u.objective.eval (v.ray s) = v.cost s := by
  have hstart := hu.objective_eq _ hv.within_solutionAt hv.solves_solutionAt
  have hafter := hu.objective_eq _ (hv.within_raise hs 1) (hv.solves_raise hs hb 1)
  have hraise : u.objective.eval (v.raise s 1) =
      u.objective.eval v.solutionAt + 1 * u.objective.eval (v.ray s) := Line.eval_add_mul ..
  rw [hv.objective_solutionAt, objectiveAt] at hstart
  rw [hv.objective_raise hs hb, objectiveAt, hraise] at hafter
  linear_combination hafter - hstart

/-- Below the column that enters carefully, no relative cost is negative. -/
theorem Presents.cost_nonneg_of_lt (hu : u.Presents P) (hr : P.ResolvedBy eps) (h0 : 0 < eps)
    {q k : Fin L.columns} {i : Fin m} (hc : u.Chooses eps .careful q i) (hkq : k < q)
    (hk : P.allowed k = true) (hb : u.isBasic k = false) : 0 ≤ u.cost k := by
  by_contra hneg
  have hprof : k ∈ u.profitable eps := mem_profitable.2
    ⟨mem_candidates.2 ⟨by rw [hu.eligible, hk], hb⟩, (hu.cost_lt_iff hr h0 hk).2 (not_le.1 hneg)⟩
  exact absurd (le_of_enteringColumn?_careful hc.entering hprof) (not_le.2 hkq)

/-- At a step of length zero, a row at level zero with a basic column below the one that leaves carefully has no
    positive entry: it would have left instead. -/
theorem Presents.entry_nonpos_of_lt (hv : v.Presents P) (hr : P.ResolvedBy eps) (h0 : 0 < eps)
    {s : Fin L.columns} {r c : Fin m} (hc : v.Chooses eps .careful s r) (hzero : v.ratio s r = 0)
    (hlevel : v.level c = 0) (hlt : v.basic c < v.basic r) : v.entry c s ≤ 0 := by
  by_contra hpos
  have hblock := (hv.lt_entry_iff hr h0 (hv.allowed_of_chooses hc) c).2 (not_le.1 hpos)
  have htie : v.ratio s c = v.ratio s r := by rw [hzero, ratio, hlevel, zero_div]
  have hbefore : v.leavesBefore Mode.careful.tieBreak s c r = true :=
    leavesBefore_iff.2 (Or.inr ⟨htie, rfl, hlt⟩)
  rw [not_leavesBefore_of_leavingRow? hc.leaving hblock] at hbefore
  cases hbefore

/-- **The crux.**  A column `q` that entered carefully can not leave carefully at the same basic solution, if no
    column above `q` became basic in between. -/
theorem Presents.no_conflict (hu : u.Presents P) (hv : v.Presents P) (hr : P.ResolvedBy eps)
    (h0 : 0 < eps) (hsol : u.solutionAt = v.solutionAt) {q s : Fin L.columns} {i r : Fin m}
    (hcu : u.Chooses eps .careful q i) (hcv : v.Chooses eps .careful s r) (hq : v.basic r = q)
    (hzero : v.ratio s r = 0) (hs : s ≤ q)
    (hle : ∀ c, u.isBasic c = false → v.isBasic c = true → c ≤ q) : False := by
  have hsallowed := hv.allowed_of_chooses hcv
  -- some term of the falling objective is negative
  have hsum : u.objective.eval (v.ray s) < 0 := by
    rw [hu.eval_objective_ray_of_presents hv hsallowed hcv.not_basic]
    exact hcv.cost_neg h0
  obtain ⟨k, hk⟩ : ∃ k, u.cost k * v.ray s k < 0 := by
    by_contra hno
    have hnonneg : ∀ k, 0 ≤ u.cost k * v.ray s k := fun k => not_lt.1 fun h => hno ⟨k, h⟩
    exact absurd hsum (not_lt.2 (Finset.sum_nonneg fun k _ => hnonneg k))
  have hku : u.isBasic k = false := by
    rcases u.basic_or_not k with ⟨c, rfl⟩ | hb
    · rw [hu.priced c, zero_mul] at hk
      exact absurd hk (lt_irrefl 0)
    · exact hb
  rcases v.basic_or_not k with ⟨c, rfl⟩ | hkv
  · rw [hv.canonical.ray_basic] at hk
    rcases lt_or_eq_of_le (hle _ hku (isBasic_iff.2 ⟨c, rfl⟩)) with hkq | hkq
    · -- neither its relative cost nor its fall along the ray is negative
      have hlevel : v.level c = 0 := by
        rw [← hv.canonical.solutionAt_basic, ← hsol, solutionAt_of_not_basic hku]
      have hcost := hu.cost_nonneg_of_lt hr h0 hcu hkq (hv.basic_allowed c) hku
      have hentry := hv.entry_nonpos_of_lt hr h0 hcv hzero hlevel (by rw [hq]; exact hkq)
      exact absurd (mul_nonneg hcost (neg_nonneg.2 hentry)) (not_le.2 hk)
    · -- `q` itself has a negative relative cost and falls along the ray
      have hcr : c = r := hv.canonical.basic_injective (hkq.trans hq.symm)
      have hneg : u.cost (v.basic c) < 0 := by rw [hkq]; exact hcu.cost_neg h0
      have hpos : 0 < v.entry c s := by rw [hcr]; exact hcv.entry_pos h0
      exact absurd (mul_pos_of_neg_of_neg hneg (neg_lt_zero.2 hpos)) (not_lt.2 hk.le)
  · -- outside the second basis only `s` is on the ray
    rw [ray_of_not_basic hkv] at hk
    by_cases hks : k = s
    · rw [if_pos hks, mul_one, hks] at hk
      rw [hks] at hku
      have hsq : s ≠ q := by
        rintro rfl
        have hout := hcv.not_basic
        rw [isBasic_iff.2 ⟨r, hq⟩] at hout
        cases hout
      exact absurd (hu.cost_nonneg_of_lt hr h0 hcu (lt_of_le_of_ne hs hsq) hsallowed hku)
        (not_le.2 hk)
    · rw [if_neg hks, mul_zero] at hk
      exact absurd hk (lt_irrefl 0)

/-- A chosen pivot of length zero keeps the basic solution. -/
theorem Presents.solutionAt_pivot (hp : t.Presents P) (hf : t.Feasible) (hr : P.ResolvedBy eps)
    (h0 : 0 < eps) {mode : Mode} {j : Fin L.columns} {i : Fin m} (hc : t.Chooses eps mode j i)
    (hzero : t.ratio j i = 0) : (t.pivot eps j i).solutionAt = t.solutionAt := by
  have hp' := hp.pivot_of_chooses hf hr h0 hc
  refine hp.canonical.eq_solutionAt ?_ ?_
  · exact (hp.holds_iff _ hp'.within_solutionAt).2 hp'.solves_solutionAt
  · intro k hk
    rcases Bool.eq_false_or_eq_true ((t.pivot eps j i).isBasic k) with hb | hb
    · -- only the column that entered is new, at the level of its row
      rcases isBasic_pivot_iff.1 hb with rfl | ⟨r, -, hrk⟩
      · have hlevel := hp'.canonical.solutionAt_basic i
        rw [basic_pivot_self] at hlevel
        rw [hlevel, t.level_pivot_self, hzero]
      · rw [isBasic_iff.2 ⟨r, hrk⟩] at hk
        cases hk
    · exact solutionAt_of_not_basic hb

end Tableau

/-! ## Descents that never end -/

/-- Pivots that go on forever, from a feasible tableau of the problem. -/
structure EndlessRun (P : Problem F L) (m : Nat) (eps : F) where
  tableau : Nat → Tableau F L m
  strategy : Nat → Strategy
  column : Nat → Fin L.columns
  row : Nat → Fin m
  chooses : ∀ k, (tableau k).Chooses eps (strategy k).mode (column k) (row k)
  tableau_succ : ∀ k, tableau (k + 1) = (tableau k).pivot eps (column k) (row k)
  strategy_succ : ∀ k, strategy (k + 1) =
    (strategy k).afterPivot (isDegenerate eps ((tableau k).ratio (column k) (row k)))
  presents_zero : (tableau 0).Presents P
  feasible_zero : (tableau 0).Feasible

namespace Strategy

/-- The strategy is careful, or will be after enough degenerate pivots in a row. -/
def TurnsCareful : Strategy → Prop
  | .fixed mode => mode = .careful
  | .adaptive _ _ => True

theorem TurnsCareful.start {rule : PivotRule} (h : rule = .bland ∨ rule = .dantzigThenBland)
    (threshold : Nat) : (rule.start threshold).TurnsCareful := by
  rcases h with rfl | rfl
  · rfl
  · exact trivial

theorem TurnsCareful.afterPivot {s : Strategy} (h : s.TurnsCareful) (degenerate : Bool) :
    (s.afterPivot degenerate).TurnsCareful := by
  cases s with
  | fixed mode => exact h
  | adaptive threshold streak => exact trivial

theorem iterate_afterPivot_adaptive (threshold streak n : Nat) :
    (Strategy.afterPivot true)^[n] (.adaptive threshold streak) =
      .adaptive threshold (streak + n) := by
  induction n with
  | zero => rfl
  | succ n ih => rw [Function.iterate_succ_apply', ih]; rfl

/-- After enough degenerate pivots in a row the mode is careful, and stays so. -/
theorem TurnsCareful.exists_careful {s : Strategy} (h : s.TurnsCareful) :
    ∃ n, ∀ d, n ≤ d → ((Strategy.afterPivot true)^[d] s).mode = .careful := by
  cases s with
  | fixed mode =>
    refine ⟨0, ?_⟩
    intro d _
    rw [Function.iterate_fixed rfl]
    exact h
  | adaptive threshold streak =>
    refine ⟨threshold, ?_⟩
    intro d hd
    rw [iterate_afterPivot_adaptive, mode_adaptive_eq_careful_iff]
    omega

end Strategy

namespace EndlessRun

variable [IsStrictOrderedRing F] {P : Problem F L} {eps : F} (R : EndlessRun P m eps)

/-- Every pivot from some point on is careful and has length zero. -/
def StalledFrom (start : Nat) : Prop :=
  ∀ k, start ≤ k → (R.strategy k).mode = .careful ∧ (R.tableau k).ratio (R.column k) (R.row k) = 0

section Invariant

variable (hr : P.ResolvedBy eps) (h0 : 0 < eps)

include hr h0

theorem presents_feasible (k : Nat) : (R.tableau k).Presents P ∧ (R.tableau k).Feasible := by
  induction k with
  | zero => exact ⟨R.presents_zero, R.feasible_zero⟩
  | succ k ih =>
    rw [R.tableau_succ]
    exact ⟨ih.1.pivot_of_chooses ih.2 hr h0 (R.chooses k),
      ih.2.pivot_of_chooses ih.1 hr h0 (R.chooses k)⟩

theorem value_antitone : Antitone fun k => (R.tableau k).value := by
  refine antitone_nat_of_succ_le ?_
  intro k
  have hfeas := (R.presents_feasible hr h0 k).2
  have hfall : (R.tableau k).cost (R.column k) * (R.tableau k).ratio (R.column k) (R.row k) ≤ 0 :=
    mul_nonpos_of_nonpos_of_nonneg ((R.chooses k).cost_neg h0).le
      (hfeas.ratio_nonneg (R.chooses k) h0)
  show (R.tableau (k + 1)).value ≤ (R.tableau k).value
  rw [R.tableau_succ, Tableau.value_pivot]
  linarith

/-- The value depends on the basis only, so it takes a least value. -/
theorem exists_least_value : ∃ start, ∀ k, (R.tableau start).value ≤ (R.tableau k).value := by
  have hfactor : (fun k => (R.tableau k).value).FactorsThrough fun k => (R.tableau k).basic :=
    fun k l hkl => Tableau.Presents.value_eq (R.presents_feasible hr h0 k).1
      (R.presents_feasible hr h0 l).1 hkl
  obtain ⟨g, hg⟩ := (Function.factorsThrough_iff _).1 hfactor
  obtain ⟨_, ⟨start, rfl⟩, hmin⟩ := Set.exists_min_image
    (Set.range fun k => (R.tableau k).basic) g (Set.toFinite _) ⟨_, ⟨0, rfl⟩⟩
  refine ⟨start, ?_⟩
  intro k
  have hv : ∀ l, (R.tableau l).value = g (R.tableau l).basic := fun l => congrFun hg l
  rw [hv start, hv k]
  exact hmin _ ⟨k, rfl⟩

/-- From some pivot on every step has length zero. -/
theorem exists_degenerate : ∃ start, ∀ k, start ≤ k →
    (R.tableau k).ratio (R.column k) (R.row k) = 0 := by
  obtain ⟨start, hleast⟩ := R.exists_least_value hr h0
  refine ⟨start, ?_⟩
  intro k hk
  have hanti := R.value_antitone hr h0
  have hsame : (R.tableau (k + 1)).value = (R.tableau k).value := by
    refine le_antisymm (hanti (Nat.le_succ k)) ?_
    exact le_trans (hanti hk) (hleast (k + 1))
  rw [R.tableau_succ, Tableau.value_pivot] at hsame
  have hprod : (R.tableau k).cost (R.column k) * (R.tableau k).ratio (R.column k) (R.row k) = 0 := by
    linear_combination hsame
  exact (mul_eq_zero.1 hprod).resolve_left ((R.chooses k).cost_neg h0).ne

/-- A strategy that turns careful stalls. -/
theorem exists_stall (hs : (R.strategy 0).TurnsCareful) : ∃ start, R.StalledFrom start := by
  obtain ⟨start, hdeg⟩ := R.exists_degenerate hr h0
  have hturn : ∀ k, (R.strategy k).TurnsCareful := by
    intro k
    induction k with
    | zero => exact hs
    | succ k ih => rw [R.strategy_succ]; exact ih.afterPivot _
  have hiter : ∀ d, R.strategy (start + d) = (Strategy.afterPivot true)^[d] (R.strategy start) := by
    intro d
    induction d with
    | zero => rfl
    | succ d ih =>
      rw [← Nat.add_assoc, R.strategy_succ, hdeg _ (Nat.le_add_right ..), ih,
        Function.iterate_succ_apply', isDegenerate, decide_eq_true h0.le]
  obtain ⟨n, hn⟩ := (hturn start).exists_careful
  refine ⟨start + n, fun k hk => ⟨?_, hdeg k (by omega)⟩⟩
  obtain ⟨d, rfl⟩ := Nat.exists_eq_add_of_le hk
  rw [Nat.add_assoc, hiter]
  exact hn _ (Nat.le_add_right ..)

/-! ### A stalled run -/

/-- The basic solution does not move while a run stalls. -/
theorem StalledFrom.solutionAt_eq {start : Nat} (hstall : R.StalledFrom start) {k l : Nat}
    (hk : start ≤ k) (hkl : k ≤ l) : (R.tableau l).solutionAt = (R.tableau k).solutionAt := by
  induction l, hkl using Nat.le_induction with
  | base => rfl
  | succ l hl ih =>
    obtain ⟨hp, hf⟩ := R.presents_feasible hr h0 l
    rw [R.tableau_succ, hp.solutionAt_pivot hf hr h0 (R.chooses l) (hstall l (hk.trans hl)).2, ih]

omit [IsStrictOrderedRing F] hr h0 in
/-- A column that becomes basic entered. -/
theorem exists_enters {k l : Nat} (hkl : k ≤ l) {c : Fin L.columns}
    (hk : (R.tableau k).isBasic c = false) (hl : (R.tableau l).isBasic c = true) :
    ∃ b, k ≤ b ∧ R.column b = c := by
  induction l, hkl using Nat.le_induction with
  | base => rw [hk] at hl; cases hl
  | succ l hle ih =>
    rw [R.tableau_succ, Tableau.isBasic_pivot_iff] at hl
    rcases hl with rfl | ⟨r, -, hr⟩
    · exact ⟨l, hle, rfl⟩
    · exact ih (Tableau.isBasic_iff.2 ⟨r, hr⟩)

omit [IsStrictOrderedRing F] hr h0 in
/-- A column that is no longer basic left. -/
theorem exists_leaves {k l : Nat} (hkl : k ≤ l) {c : Fin L.columns}
    (hk : (R.tableau k).isBasic c = true) (hl : (R.tableau l).isBasic c = false) :
    ∃ b, k ≤ b ∧ (R.tableau b).basic (R.row b) = c := by
  induction l, hkl using Nat.le_induction with
  | base => rw [hk] at hl; cases hl
  | succ l hle ih =>
    rcases (R.tableau l).basic_or_not c with ⟨r, hrc⟩ | hb
    · by_cases hrow : r = R.row l
      · exact ⟨l, hle, by rw [← hrow]; exact hrc⟩
      · have hstay : (R.tableau (l + 1)).isBasic c = true := by
          rw [R.tableau_succ]
          exact Tableau.isBasic_pivot_iff.2 (Or.inr ⟨r, hrow, hrc⟩)
        rw [hstay] at hl
        cases hl
    · exact ih hb

omit [IsStrictOrderedRing F] hr h0 in
/-- Some column enters again and again, and from some pivot on no column above it does. -/
theorem exists_highest_entering : ∃ q, (∃ᶠ k in Filter.atTop, R.column k = q) ∧
    ∀ᶠ k in Filter.atTop, R.column k ≤ q := by
  have hne : {c | ∃ᶠ k in Filter.atTop, R.column k = c}.Nonempty := by
    by_contra hempty
    have hnever : ∀ᶠ k in Filter.atTop, ∀ c, R.column k ≠ c := by
      refine Filter.eventually_all.2 fun c => Filter.not_frequently.1 ?_
      intro hc
      exact hempty ⟨c, hc⟩
    obtain ⟨k, hk⟩ := hnever.exists
    exact hk _ rfl
  obtain ⟨q, hq, hmax⟩ := Set.exists_max_image _ id (Set.toFinite _) hne
  refine ⟨q, hq, ?_⟩
  have habove : ∀ᶠ k in Filter.atTop, ∀ c, q < c → R.column k ≠ c := by
    refine Filter.eventually_all.2 ?_
    intro c
    by_cases hc : q < c
    · have hrare : ∀ᶠ k in Filter.atTop, R.column k ≠ c :=
        Filter.not_frequently.1 fun hfreq => absurd (hmax c hfreq) (not_le.2 hc)
      exact hrare.mono fun k hk _ => hk
    · exact Filter.Eventually.of_forall fun k h => absurd h hc
  exact habove.mono fun k hk => not_lt.1 fun h => hk _ h rfl

/-- No run stalls: the highest column that enters again and again would have to leave in between. -/
theorem not_stalled {start : Nat} (hstall : R.StalledFrom start) : False := by
  obtain ⟨q, hoften, hhigh⟩ := R.exists_highest_entering
  obtain ⟨from', hhigh⟩ := Filter.eventually_atTop.1 hhigh
  obtain ⟨a, ha, hqa⟩ := Filter.frequently_atTop.1 hoften (max start from')
  have hsa : start ≤ a := le_trans (le_max_left ..) ha
  have hfa : from' ≤ a := le_trans (le_max_right ..) ha
  -- `q` enters at `a`, is out again before it enters the next time, so it leaves at some `b` after `a`
  obtain ⟨a', ha', hqa'⟩ := Filter.frequently_atTop.1 hoften (a + 1)
  have hin : (R.tableau (a + 1)).isBasic q = true := by
    rw [R.tableau_succ]
    exact Tableau.isBasic_pivot_iff.2 (Or.inl hqa.symm)
  have hout : (R.tableau a').isBasic q = false := by
    rw [← hqa']
    exact (R.chooses a').not_basic
  obtain ⟨b, hab, hqb⟩ := R.exists_leaves ha' hin hout
  have hab' : a ≤ b := by omega
  have hca := R.chooses a
  have hcb := R.chooses b
  rw [(hstall a hsa).1, hqa] at hca
  rw [(hstall b (by omega)).1] at hcb
  refine (R.presents_feasible hr h0 a).1.no_conflict (R.presents_feasible hr h0 b).1 hr h0 ?_ hca hcb
    hqb (hstall b (by omega)).2 (hhigh b (by omega)) ?_
  · exact (StalledFrom.solutionAt_eq R hr h0 hstall hsa hab').symm
  · intro c hc hc'
    obtain ⟨k, hk, rfl⟩ := R.exists_enters hab' hc hc'
    exact hhigh k (by omega)

end Invariant

end EndlessRun

/-! ## Every careful descent ends -/

/-- A tableau and the strategy by which it is to be improved. -/
structure Position (F : Type) (L : Layout) (m : Nat) where
  tableau : Tableau F L m
  strategy : Strategy

/-- One pivot leads from the first position to the second. -/
def Position.Moves (eps : F) (a b : Position F L m) : Prop :=
  ∃ j i, a.tableau.Chooses eps a.strategy.mode j i ∧
    b = ⟨a.tableau.pivot eps j i, a.strategy.afterPivot (isDegenerate eps (a.tableau.ratio j i))⟩

/-- **Termination.**  From a feasible tableau of a problem that the tolerance resolves, a strategy that turns
    careful can not pivot forever. -/
theorem Position.acc_moves [IsStrictOrderedRing F] {P : Problem F L} {eps : F}
    (hr : P.ResolvedBy eps) (h0 : 0 < eps) {a : Position F L m} (hp : a.tableau.Presents P)
    (hf : a.tableau.Feasible) (hs : a.strategy.TurnsCareful) :
    Acc (fun b a => Position.Moves eps a b) a := by
  by_contra hacc
  obtain ⟨f, hzero, hmoves⟩ := not_acc_iff_exists_descending_chain.1 hacc
  choose column row hchooses hnext using hmoves
  let R : EndlessRun P m eps :=
    { tableau := fun k => (f k).tableau
      strategy := fun k => (f k).strategy
      column := column
      row := row
      chooses := hchooses
      tableau_succ := fun k => by rw [hnext k]
      strategy_succ := fun k => by rw [hnext k]
      presents_zero := by rw [hzero]; exact hp
      feasible_zero := by rw [hzero]; exact hf }
  have hcareful : (R.strategy 0).TurnsCareful := by
    show (f 0).strategy.TurnsCareful
    rw [hzero]
    exact hs
  obtain ⟨start, hstall⟩ := R.exists_stall hr h0 hcareful
  exact R.not_stalled hr h0 hstall

/-- A descent that can not go on forever reaches its end, the same one whenever enough pivots are allowed. -/
theorem Position.exists_descent {eps : F} {a : Position F L m}
    (hacc : Acc (fun b a => Position.Moves eps a b) a) {E : Type} (phase : Phase) :
    ∀ pivots x, ∃ (enough : Nat) (d : Descent F L m), ∀ left, enough ≤ left →
      (a.tableau.descend (E := E) phase eps left pivots a.strategy x).result = .ok d := by
  induction hacc with
  | intro a _ ih =>
    intro pivots x
    rcases a.tableau.choice_cases eps a.strategy.mode with hj | ⟨j, hj, hi⟩ | ⟨j, i, hc⟩
    · exact ⟨0, _, fun left _ => Tableau.result_descend_of_optimal hj⟩
    · exact ⟨0, _, fun left _ => Tableau.result_descend_of_unlimited hj hi⟩
    · obtain ⟨enough, d, hd⟩ := ih _ ⟨j, i, hc, rfl⟩ (pivots + 1) (a.tableau.writeSolution x)
      refine ⟨enough + 1, d, ?_⟩
      intro left hleft
      obtain ⟨left', rfl⟩ : ∃ left', left = left' + 1 := ⟨left - 1, by omega⟩
      rw [Tableau.result_descend_succ hc]
      exact hd left' (by omega)

end Simplex
