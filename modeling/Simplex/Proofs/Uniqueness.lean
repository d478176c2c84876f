/-
  The basis determines the tableau.

  Pivots can lead to one basis on many paths: in another order, in other rows, with detours.  What stands in the tableau
  then is the same up to the order of the rows, because it can be read off things that no pivot changes.

  1. `Keeps d` — no row changes along `d`.  A pivot changes neither the directions that keep the rows nor the objective
     along them, whatever the tolerance (`keeps_pivot_iff`, `eval_objective_pivot`).
  2. `Restates` — a tableau solved for its basis that has the same directions, and the same objective along them.  Rays
     are such directions and are fixed by what they are outside the basis, so entries and relative costs are determined
     (`Restates.entry_eq`, `Restates.cost_eq`).
  3. `Matches` — solutions and objective are the same too, as after pivots without a tolerance.  The basic solution is
     the one solution with zeros outside the basis, so levels and value are determined.
  4. `pivot_back` — bringing the column that left back into its row undoes a pivot.
  5. `determined_by_basis` — all of this for an accepted tableau, with any objective loaded.
-/
import Mathlib.Logic.Relation
import Simplex.Proofs.Representation

namespace Simplex

/-! ## Equal cells make equal tableaux -/

/-- A line is its cells and its right-hand side. -/
theorem Line.ext_cell {F : Type} {n : Nat} {l p : Line F n} (hcell : ∀ j, l.cell j = p.cell j) (hrhs : l.rhs = p.rhs) :
    l = p := by
  obtain ⟨coeff, rhs⟩ := l
  obtain ⟨coeff', rhs'⟩ := p
  obtain rfl : rhs = rhs' := hrhs
  congr 1
  exact Vector.ext fun j hj => hcell ⟨j, hj⟩

namespace Tableau

variable {F : Type} [Field F] {L : Layout} {m : Nat}

/-- A tableau is what its views show. -/
theorem ext_views {t u : Tableau F L m} (hbasic : ∀ i, t.basic i = u.basic i)
    (hentry : ∀ i j, t.entry i j = u.entry i j) (hlevel : ∀ i, t.level i = u.level i)
    (hcost : ∀ j, t.cost j = u.cost j) (hvalue : t.value = u.value) (heligible : t.eligible = u.eligible) :
    t = u := by
  obtain ⟨rows, objective, eligible⟩ := t
  obtain ⟨rows', objective', eligible'⟩ := u
  obtain rfl : eligible = eligible' := heligible
  obtain rfl : objective = objective' := Line.ext_cell hcost (neg_injective hvalue)
  congr 1
  refine Vector.ext fun i hi => ?_
  have hline : (rows.get ⟨i, hi⟩).line = (rows'.get ⟨i, hi⟩).line :=
    Line.ext_cell (hentry ⟨i, hi⟩) (hlevel ⟨i, hi⟩)
  have hcolumn : (rows.get ⟨i, hi⟩).basic = (rows'.get ⟨i, hi⟩).basic := hbasic ⟨i, hi⟩
  show rows.get ⟨i, hi⟩ = rows'.get ⟨i, hi⟩
  cases hrow : rows.get ⟨i, hi⟩
  cases hrow' : rows'.get ⟨i, hi⟩
  rw [hrow, hrow'] at hline hcolumn
  cases hline
  cases hcolumn
  rfl

/-! ## Directions -/

/-- No row changes along `d`. -/
def Keeps (t : Tableau F L m) (d : Fin L.columns → F) : Prop := ∀ i, (t.row i).line.eval d = 0

/-- Raising a column outside the basis changes no row, once the basic variables follow. -/
theorem Canonical.keeps_ray {t : Tableau F L m} (h : t.Canonical) {j : Fin L.columns} (hj : t.isBasic j = false) :
    t.Keeps (t.ray j) :=
  fun i => h.eval_row_ray hj i

/-- A direction is fixed by what it is outside the basis. -/
theorem Canonical.eq_of_keeps {t : Tableau F L m} (h : t.Canonical) {d e : Fin L.columns → F} (hd : t.Keeps d)
    (he : t.Keeps e) (hde : ∀ k, t.isBasic k = false → d k = e k) : d = e :=
  h.eq_of_eval_eq (fun i => (hd i).trans (he i).symm) hde

variable [LinearOrder F]

section

variable (t : Tableau F L m) (eps : F) {j : Fin L.columns} {i : Fin m} {d : Fin L.columns → F}

/-- A pivot keeps the directions along which no row changes. -/
theorem keeps_pivot_iff (h : t.entry i j ≠ 0) : (t.pivot eps j i).Keeps d ↔ t.Keeps d :=
  t.forall_pivot_eq_zero_iff h (t.eval_pivot_self eps d h) fun _ hr => t.eval_pivot_of_ne eps d h hr

/-- Along these directions it keeps the objective, too. -/
theorem eval_objective_pivot (h : t.entry i j ≠ 0) (hd : t.Keeps d) :
    (t.pivot eps j i).objective.eval d = t.objective.eval d := by
  rw [objective_pivot, Line.eval_eliminate _ t.cell_pivotLine_self, t.eval_pivotLine d h, hd i]
  simp

end

/-! ## Sequences of pivots -/

/-- A pivot in a column outside the basis, on an entry that is not zero, under one of the given tolerances. -/
inductive PivotsWith (tolerances : Set F) : Tableau F L m → Tableau F L m → Prop
  | intro {t : Tableau F L m} {eps : F} {j : Fin L.columns} {i : Fin m} (heps : eps ∈ tolerances)
      (hj : t.isBasic j = false) (hij : t.entry i j ≠ 0) : PivotsWith tolerances t (t.pivot eps j i)

/-- So many pivots, one after the other. -/
abbrev LeadsBy (tolerances : Set F) : Tableau F L m → Tableau F L m → Prop :=
  Relation.ReflTransGen (PivotsWith tolerances)

/-! ## What all tolerances keep -/

/-- The tableau `t` is solved for its basis, and says the same as `s` about directions. -/
structure Restates (s t : Tableau F L m) : Prop where
  canonical : t.Canonical
  priced : t.Priced
  eligible : t.eligible = s.eligible
  keeps_iff : ∀ d, t.Keeps d ↔ s.Keeps d
  slope_eq : ∀ d, s.Keeps d → t.objective.eval d = s.objective.eval d

namespace Restates

variable {s t u v : Tableau F L m}

omit [LinearOrder F] in
protected theorem refl (hc : s.Canonical) (hp : s.Priced) : Restates s s :=
  ⟨hc, hp, rfl, fun _ => Iff.rfl, fun _ _ => rfl⟩

/-- One pivot, under any tolerance: levels may be rounded, directions are not. -/
theorem pivot (h : Restates s t) (eps : F) {j : Fin L.columns} {i : Fin m} (hij : t.entry i j ≠ 0) :
    Restates s (t.pivot eps j i) where
  canonical := h.canonical.pivot eps hij
  priced := h.priced.pivot h.canonical eps hij
  eligible := h.eligible
  keeps_iff d := (t.keeps_pivot_iff eps hij).trans (h.keeps_iff d)
  slope_eq d hd := (t.eval_objective_pivot eps hij ((h.keeps_iff d).2 hd)).trans (h.slope_eq d hd)

/-- A sequence of pivots, one after the other. -/
theorem of_leadsBy {tolerances : Set F} (hc : s.Canonical) (hp : s.Priced) (h : LeadsBy tolerances s t) :
    Restates s t := by
  induction h with
  | refl => exact .refl hc hp
  | tail _ hstep ih =>
    cases hstep with
    | intro _ _ hij => exact ih.pivot _ hij

/-! ## Entries and relative costs -/

section Unique

omit [LinearOrder F]

variable (hu : Restates s u) (hv : Restates s v) (hb : ∀ j, u.isBasic j = v.isBasic j)

include hu hv hb

/-- Both tableaux raise a column outside the basis along the same direction. -/
theorem ray_eq {j : Fin L.columns} (hj : u.isBasic j = false) : u.ray j = v.ray j := by
  have hj' : v.isBasic j = false := (hb j).symm.trans hj
  refine hv.canonical.eq_of_keeps ?_ (hv.canonical.keeps_ray hj') fun k hk => ?_
  · exact (hv.keeps_iff _).2 ((hu.keeps_iff _).1 (hu.canonical.keeps_ray hj))
  · rw [ray_of_not_basic ((hb k).trans hk), ray_of_not_basic hk]

/-- The rows with one basic column have the same entries. -/
theorem entry_eq {i k : Fin m} (hik : u.basic i = v.basic k) (j : Fin L.columns) : u.entry i j = v.entry k j := by
  rcases u.basic_or_not j with ⟨r, rfl⟩ | hj
  · obtain ⟨q, hq⟩ := isBasic_iff.1 ((hb _).symm.trans (isBasic_iff.2 ⟨r, rfl⟩))
    have hrows : i = r ↔ k = q := by
      constructor
      · intro hir
        exact hv.canonical.basic_injective (by rw [← hik, hir, hq])
      · intro hkq
        exact hu.canonical.basic_injective (by rw [hik, hkq, hq])
    rw [hu.canonical i r, ← hq, hv.canonical k q, if_congr hrows rfl rfl]
  · -- the ray of the column shows its entries
    have hray := congrFun (ray_eq hu hv hb hj) (u.basic i)
    rw [hu.canonical.ray_basic, hik, hv.canonical.ray_basic] at hray
    exact neg_injective hray

/-- Relative costs are slopes of the objective along these directions. -/
theorem cost_eq (j : Fin L.columns) : u.cost j = v.cost j := by
  rcases u.basic_or_not j with ⟨r, rfl⟩ | hj
  · obtain ⟨q, hq⟩ := isBasic_iff.1 ((hb _).symm.trans (isBasic_iff.2 ⟨r, rfl⟩))
    rw [hu.priced r, ← hq, hv.priced q]
  · have hkeeps := (hu.keeps_iff _).1 (hu.canonical.keeps_ray hj)
    calc u.cost j = u.objective.eval (u.ray j) := (hu.priced.eval_objective_ray hj).symm
      _ = s.objective.eval (u.ray j) := hu.slope_eq _ hkeeps
      _ = v.objective.eval (u.ray j) := (hv.slope_eq _ hkeeps).symm
      _ = v.objective.eval (v.ray j) := by rw [ray_eq hu hv hb hj]
      _ = v.cost j := hv.priced.eval_objective_ray ((hb j).symm.trans hj)

end Unique

end Restates

/-! ## What is kept without a tolerance -/

/-- The tableau `t` has the solutions of `s`, and the same objective on them. -/
structure Matches (s t : Tableau F L m) : Prop extends Restates s t where
  holds_iff : ∀ x, t.Holds x ↔ s.Holds x
  objectiveAt_eq : ∀ x, s.Holds x → t.objectiveAt x = s.objectiveAt x

namespace Matches

variable {s t u v : Tableau F L m}

omit [LinearOrder F] in
protected theorem refl (hc : s.Canonical) (hp : s.Priced) : Matches s s :=
  ⟨.refl hc hp, fun _ => Iff.rfl, fun _ _ => rfl⟩

/-- One pivot without tolerance. -/
theorem pivot (h : Matches s t) {j : Fin L.columns} {i : Fin m} (hij : t.entry i j ≠ 0) :
    Matches s (t.pivot 0 j i) where
  toRestates := h.toRestates.pivot 0 hij
  holds_iff x := (t.holds_pivot_iff_of_level_eq 0 hij fun _ hr => t.level_pivot_zero hr).trans (h.holds_iff x)
  objectiveAt_eq x hx := (t.objectiveAt_pivot 0 hij ((h.holds_iff x).2 hx)).trans (h.objectiveAt_eq x hx)

/-- A sequence of pivots without tolerance. -/
theorem of_leadsBy (hc : s.Canonical) (hp : s.Priced) (h : LeadsBy {0} s t) : Matches s t := by
  induction h with
  | refl => exact .refl hc hp
  | tail _ hstep ih =>
    cases hstep with
    | intro heps _ hij =>
      cases heps
      exact ih.pivot hij

/-! ## Levels and value -/

section Unique

omit [LinearOrder F]

variable (hu : Matches s u) (hv : Matches s v) (hb : ∀ j, u.isBasic j = v.isBasic j)

include hu in
/-- The basic solution of a later tableau solves the first one. -/
theorem holds_solutionAt : s.Holds u.solutionAt := (hu.holds_iff _).1 hu.canonical.holds_solutionAt

include hu in
/-- And it costs there what the later tableau says. -/
theorem objectiveAt_solutionAt : s.objectiveAt u.solutionAt = u.value := by
  rw [← hu.objectiveAt_eq _ hu.holds_solutionAt, hu.priced.objectiveAt_solutionAt]

include hu hv hb

/-- One basis has one basic solution. -/
theorem solutionAt_eq : u.solutionAt = v.solutionAt := by
  refine hv.canonical.eq_solutionAt ((hv.holds_iff _).2 hu.holds_solutionAt) fun k hk => ?_
  exact solutionAt_of_not_basic ((hb k).trans hk)

/-- Rows with the same basic variable are at the same level. -/
theorem level_eq {i k : Fin m} (hik : u.basic i = v.basic k) : u.level i = v.level k := by
  rw [← hu.canonical.solutionAt_basic, ← hv.canonical.solutionAt_basic, solutionAt_eq hu hv hb, hik]

theorem value_eq : u.value = v.value := by
  rw [← hu.objectiveAt_solutionAt, ← hv.objectiveAt_solutionAt, solutionAt_eq hu hv hb]

/-- With the same basic column in every row, nothing is left to differ. -/
theorem eq_of_basic_eq (hrows : ∀ i, u.basic i = v.basic i) : u = v :=
  ext_views hrows (fun i => hu.entry_eq hv.toRestates hb (hrows i)) (fun i => level_eq hu hv hb (hrows i))
    (hu.cost_eq hv.toRestates hb) (value_eq hu hv hb) (hu.eligible.trans hv.eligible.symm)

end Unique

end Matches

/-! ## There and back -/

section Back

variable {t : Tableau F L m} (hc : t.Canonical) {j : Fin L.columns} {i : Fin m} (hj : t.isBasic j = false)

include hc hj in
/-- The column that left is outside the basis. -/
theorem Canonical.not_basic_left (eps : F) : (t.pivot eps j i).isBasic (t.basic i) = false := by
  refine Bool.of_not_eq_true fun hleft => ?_
  rcases isBasic_pivot_iff.1 hleft with hij | ⟨r, hr, hri⟩
  · rw [isBasic_iff.2 ⟨i, hij⟩] at hj
    cases hj
  · exact hr (hc.basic_injective hri)

include hc in
/-- So the pivot can be undone: the column that left can enter again, in the same row. -/
theorem Canonical.entry_left_ne_zero (eps : F) (hij : t.entry i j ≠ 0) :
    (t.pivot eps j i).entry i (t.basic i) ≠ 0 := by
  rw [t.entry_pivot_self eps hij, hc i i, if_pos rfl]
  exact one_div_ne_zero hij

include hc in
/-- Bringing the column that left back into its row undoes a pivot. -/
theorem pivot_back (hp : t.Priced) (hij : t.entry i j ≠ 0) : (t.pivot 0 j i).pivot 0 (t.basic i) i = t := by
  have hback := ((Matches.refl hc hp).pivot hij).pivot (hc.entry_left_ne_zero 0 hij)
  have hrows : ∀ r, ((t.pivot 0 j i).pivot 0 (t.basic i) i).basic r = t.basic r := by
    intro r
    by_cases hr : r = i
    · rw [hr, basic_pivot_self]
    · rw [basic_pivot_of_ne _ 0 _ hr, basic_pivot_of_ne t 0 j hr]
  refine hback.eq_of_basic_eq (.refl hc hp) (fun k => ?_) hrows
  rw [Bool.eq_iff_iff, isBasic_iff, isBasic_iff]
  simp only [hrows]

end Back

/-! ## Accepted tableaux -/

/-- The tableaux that loads of objectives make of `first`, before any pivot. -/
inductive Loads (first : Tableau F L m) : Tableau F L m → Prop
  | start : Loads first first
  | loadArtificial {t : Tableau F L m} (before : Loads first t) : Loads first t.loadArtificial
  | loadCost {t : Tableau F L m} (before : Loads first t) (direction : Direction) (cost : Vector F L.decision) :
      Loads first (t.loadCost direction cost)

namespace Loads

variable {first t : Tableau F L m}

/-- Loading an objective leaves the rows as they are. -/
theorem row_eq (h : Loads first t) (i : Fin m) : t.row i = first.row i := by
  induction h with
  | start => rfl
  | loadArtificial _ ih => exact ih
  | loadCost _ _ _ ih => exact ih

theorem canonical (h : Loads first t) (hc : first.Canonical) : t.Canonical := by
  intro i k
  rw [entry, basic, h.row_eq i, h.row_eq k]
  exact hc i k

/-- Basic columns have relative cost zero, whatever was loaded last. -/
theorem priced (h : Loads first t) (hfirst : first.Fresh) (h0 : first.Priced) : t.Priced := by
  cases h with
  | start => exact h0
  | @loadArtificial u before =>
    refine (before.canonical hfirst.canonical).priced_loadArtificial fun i => ?_
    rw [basic, before.row_eq i]
    exact hfirst.artificial_iff i
  | loadCost before direction cost => exact (before.canonical hfirst.canonical).priced_loadCost direction cost

end Loads

/-- An accepted tableau has no objective, and every column has relative cost zero. -/
theorem priced_of_ofRows {rows : List (List F)} {levels : List F} {first : Tableau F L L.rows}
    (h : ofRows L rows levels = .ok first) : first.Priced := by
  obtain ⟨-, rfl⟩ := ofRows_eq_ok_iff.1 h
  exact fun i => Line.cell_zero _

omit [Field F] [LinearOrder F] in
/-- Which columns are basic depends on the set of basic columns only, not on the rows they are in. -/
theorem isBasic_eq_of_range_eq {u v : Tableau F L m} (h : Set.range u.basic = Set.range v.basic) (j : Fin L.columns) :
    u.isBasic j = v.isBasic j := by
  rw [Bool.eq_iff_iff, isBasic_iff, isBasic_iff]
  exact Set.ext_iff.1 h j

/-- **The basis determines the tableau.**  Let any objective be loaded into an accepted tableau.  However pivots lead
    from there to tableaux with the same set of basic columns, rows with the same basic column have the same entries,
    and relative costs are the same, whatever the tolerances.  If no pivot has a tolerance, these rows have the same
    right-hand sides, and value and basic solution are the same.  And from any tableau that is led to, a pivot without
    a tolerance is undone by the pivot that brings the column that left back into its row. -/
theorem determined_by_basis {rows : List (List F)} {levels : List F} {first s : Tableau F L L.rows}
    (hfirst : ofRows L rows levels = .ok first) (hs : Loads first s) :
    (∀ u v, LeadsBy Set.univ s u → LeadsBy Set.univ s v → Set.range u.basic = Set.range v.basic →
      (∀ i k, u.basic i = v.basic k → ∀ j, u.entry i j = v.entry k j) ∧ ∀ j, u.cost j = v.cost j) ∧
    (∀ u v, LeadsBy {0} s u → LeadsBy {0} s v → Set.range u.basic = Set.range v.basic →
      (∀ i k, u.basic i = v.basic k → u.level i = v.level k) ∧ u.value = v.value ∧
        u.basicSolution = v.basicSolution) ∧
    ∀ u, LeadsBy Set.univ s u → ∀ j i, u.isBasic j = false → u.entry i j ≠ 0 →
      PivotsWith {0} (u.pivot 0 j i) ((u.pivot 0 j i).pivot 0 (u.basic i) i) ∧
      (u.pivot 0 j i).pivot 0 (u.basic i) i = u := by
  have hfresh := Fresh.of_ofRows hfirst
  have hc := hs.canonical hfresh.canonical
  have hp := hs.priced hfresh (priced_of_ofRows hfirst)
  refine ⟨?_, ?_, ?_⟩
  · intro u v hu hv hrange
    have hb := isBasic_eq_of_range_eq hrange
    have hu' := Restates.of_leadsBy hc hp hu
    have hv' := Restates.of_leadsBy hc hp hv
    exact ⟨fun i k => hu'.entry_eq hv' hb, hu'.cost_eq hv' hb⟩
  · intro u v hu hv hrange
    have hb := isBasic_eq_of_range_eq hrange
    have hu' := Matches.of_leadsBy hc hp hu
    have hv' := Matches.of_leadsBy hc hp hv
    refine ⟨fun i k => hu'.level_eq hv' hb, hu'.value_eq hv' hb, ?_⟩
    rw [basicSolution, basicSolution, hu'.solutionAt_eq hv' hb]
  · intro u hu j i hj hij
    have hu' := Restates.of_leadsBy hc hp hu
    refine ⟨.intro rfl (hu'.canonical.not_basic_left hj 0) (hu'.canonical.entry_left_ne_zero 0 hij), ?_⟩
    exact pivot_back hu'.canonical hu'.priced hij

/-- Two bounds on two variables, both with a slack, and with a cost loaded. -/
def crossing : Tableau ℚ ⟨2, 2, 0, 0⟩ 2 := fill ⟨2, 2, 0, 0⟩ [[2, 1, 1, 0], [1, 3, 0, 1]] [4, 6]

def crossingLoaded : Tableau ℚ ⟨2, 2, 0, 0⟩ 2 := crossing.loadCost .maximize #v[1, 1]

/-- Both variables enter the basis of `crossing`, each in its own row. -/
def straight : Tableau ℚ ⟨2, 2, 0, 0⟩ 2 :=
  (crossingLoaded.pivot 0 ⟨0, by decide⟩ ⟨0, by decide⟩).pivot 0 ⟨1, by decide⟩ ⟨1, by decide⟩

/-- Each enters in the row of the other. -/
def crossed : Tableau ℚ ⟨2, 2, 0, 0⟩ 2 :=
  (crossingLoaded.pivot 0 ⟨1, by decide⟩ ⟨0, by decide⟩).pivot 0 ⟨0, by decide⟩ ⟨1, by decide⟩

/-- The two ways lead to the same tableau but for the order of the rows, and the first pivot of one of them can be
    undone. -/
theorem determined_by_basis_crossing :
    ofRows ⟨2, 2, 0, 0⟩ [[2, 1, 1, 0], [1, 3, 0, 1]] [4, 6] = .ok crossing ∧ Loads crossing crossingLoaded ∧
    LeadsBy {0} crossingLoaded straight ∧ LeadsBy {0} crossingLoaded crossed ∧
    straight.basis = [⟨0, by decide⟩, ⟨1, by decide⟩] ∧ crossed.basis = [⟨1, by decide⟩, ⟨0, by decide⟩] ∧
    (∀ j, straight.entry ⟨0, by decide⟩ j = crossed.entry ⟨1, by decide⟩ j) ∧
    straight.level ⟨0, by decide⟩ = crossed.level ⟨1, by decide⟩ ∧ (∀ j, straight.cost j = crossed.cost j) ∧
    straight.value = crossed.value ∧ straight.basicSolution = crossed.basicSolution ∧
    (crossingLoaded.pivot 0 ⟨0, by decide⟩ ⟨0, by decide⟩).pivot 0 ⟨2, by decide⟩ ⟨0, by decide⟩ =
      crossingLoaded := by
  have hfirst : ofRows ⟨2, 2, 0, 0⟩ [[2, 1, 1, 0], [1, 3, 0, 1]] [4, 6] = .ok crossing :=
    ofRows_eq_ok_iff.2 ⟨by decide +kernel, rfl⟩
  have hs : Loads crossing crossingLoaded := .loadCost .start ..
  have hstraight : ∀ {T : Set ℚ}, 0 ∈ T → LeadsBy T crossingLoaded straight := fun h0 =>
    (Relation.ReflTransGen.single (.intro h0 (by decide +kernel) (by decide +kernel))).tail
      (.intro h0 (by decide +kernel) (by decide +kernel))
  have hcrossed : ∀ {T : Set ℚ}, 0 ∈ T → LeadsBy T crossingLoaded crossed := fun h0 =>
    (Relation.ReflTransGen.single (.intro h0 (by decide +kernel) (by decide +kernel))).tail
      (.intro h0 (by decide +kernel) (by decide +kernel))
  have hsame : ∀ j, (∃ i, straight.basic i = j) ↔ ∃ i, crossed.basic i = j := by decide +kernel
  obtain ⟨hall, hexact, hback⟩ := determined_by_basis hfirst hs
  obtain ⟨hentry, hcost⟩ := hall _ _ (hstraight (Set.mem_univ 0)) (hcrossed (Set.mem_univ 0)) (Set.ext hsame)
  obtain ⟨hlevel, hvalue, hsolution⟩ := hexact _ _ (hstraight rfl) (hcrossed rfl) (Set.ext hsame)
  refine ⟨hfirst, hs, hstraight rfl, hcrossed rfl, by decide +kernel, by decide +kernel, ?_, ?_, hcost, hvalue,
    hsolution, ?_⟩
  · exact hentry _ _ (by decide +kernel)
  · exact hlevel _ _ (by decide +kernel)
  · exact (hback _ .refl _ _ (by decide +kernel) (by decide +kernel)).2

end Tableau

end Simplex
