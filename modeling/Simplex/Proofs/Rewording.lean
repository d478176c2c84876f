/-
  The first tableau does not see how a program is written down.

  A constraint can be written with all signs changed, with more zeros at its end, and in another place among the
  others.  Padding comes before the signs are looked at and the relation is read off after that, so all of this is gone
  when the rows are put in order.

  1. `Rewords` — one constraint is negated or extended, or all of them are put in another order that keeps the order of
     those which face the same way.
  2. `Constraint.oriented_negated`, `Constraint.oriented_extended`, `filter_eq_of_reorder` — what one step keeps, and
     `Alike` — what every rewording keeps: the oriented constraints of each relation, in their order.
  3. `Program.reworded` — so it is the same tableau, and the same run, event by event.
-/
import Mathlib.Data.List.Sort
import Mathlib.Tactic.FinCases
import Simplex.Proofs.Soundness

namespace Simplex

variable {F : Type} [Field F] [LinearOrder F]

/-! ## Rewordings -/

namespace Constraint

/-- The constraint with both sides negated. -/
def negated (c : Constraint F) : Constraint F := ⟨c.coefficients.map (- ·), c.relation.flip, -c.rhs⟩

/-- The constraint with `k` more coefficients, all of them zero. -/
def extended (c : Constraint F) (k : Nat) : Constraint F := { c with coefficients := c.coefficients ++ .replicate k 0 }

end Constraint

/-- One step from a list of constraints on `n` variables to another one that says the same. -/
inductive Rewords (n : Nat) : List (Constraint F) → List (Constraint F) → Prop
  | negate (before after : List (Constraint F)) {c : Constraint F} (hrhs : c.rhs ≠ 0) :
      Rewords n (before ++ c :: after) (before ++ c.negated :: after)
  | extend (before after : List (Constraint F)) {c : Constraint F} {k : Nat} (hk : c.coefficients.length + k ≤ n) :
      Rewords n (before ++ c :: after) (before ++ c.extended k :: after)
  | reorder {l l' : List (Constraint F)} (place : Fin l'.length ≃ Fin l.length)
      (same : ∀ i, l'.get i = l.get (place i))
      (order : ∀ i k, i < k → (l'.get i).facing = (l'.get k).facing → place i < place k) : Rewords n l l'

/-! ## What one step keeps -/

/-- If the elements that are wanted keep their order, the same ones are found in the same order. -/
theorem filter_eq_of_reorder {α : Type} {l l' : List α} (place : Fin l'.length ≃ Fin l.length)
    (same : ∀ i, l'.get i = l.get (place i)) (wanted : α → Bool)
    (order : ∀ i k, i < k → wanted (l'.get i) = true → wanted (l'.get k) = true → place i < place k) :
    l'.filter wanted = l.filter wanted := by
  -- the places of the elements found, in the one list and in the other
  have hplaces : ((List.finRange l'.length).filter (wanted ∘ l'.get)).map place =
      (List.finRange l.length).filter (wanted ∘ l.get) := by
    refine List.Pairwise.eq_of_mem_iff (r := (· < ·)) ?_ ?_ ?_
    · rw [List.pairwise_map]
      refine ((List.pairwise_lt_finRange l'.length).filter _).imp_of_mem ?_
      intro i k hi hk hlt
      exact order i k hlt (List.mem_filter.1 hi).2 (List.mem_filter.1 hk).2
    · exact (List.pairwise_lt_finRange l.length).filter _
    · intro k
      simp only [List.mem_map, List.mem_filter, List.mem_finRange, true_and, Function.comp_apply]
      constructor
      · rintro ⟨i, hi, rfl⟩
        rw [← same]
        exact hi
      · intro hk
        refine ⟨place.symm k, ?_, place.apply_symm_apply k⟩
        rw [same, place.apply_symm_apply]
        exact hk
  calc l'.filter wanted
      = ((List.finRange l'.length).map l'.get).filter wanted := by rw [List.map_get_finRange]
    _ = (((List.finRange l'.length).filter (wanted ∘ l'.get)).map place).map l.get := by
        rw [List.filter_map, List.map_map]
        exact List.map_congr_left fun i _ => same i
    _ = ((List.finRange l.length).map l.get).filter wanted := by rw [hplaces, List.filter_map]
    _ = l.filter wanted := by rw [List.map_get_finRange]

namespace Constraint

theorem padded_extended {c : Constraint F} {n k : Nat} (hk : c.coefficients.length + k ≤ n) :
    (c.extended k).padded n = c.padded n := by
  have hcount : k + (n - (c.coefficients.length + k)) = n - c.coefficients.length := by omega
  simp only [padded, extended, List.length_append, List.length_replicate, List.append_assoc,
    List.replicate_append_replicate, hcount]

/-- Zeros at the end are written down anyway. -/
theorem oriented_extended {c : Constraint F} {n k : Nat} (hk : c.coefficients.length + k ≤ n) :
    (c.extended k).oriented n = c.oriented n := by
  rw [oriented_eq, oriented_eq, padded_extended hk]
  rfl

theorem padded_negated (c : Constraint F) (n : Nat) : c.negated.padded n = (c.padded n).map (- ·) := by
  simp only [padded, negated, List.length_map, List.map_append, List.map_replicate, neg_zero]

variable [IsStrictOrderedRing F]

/-- A constraint and its negation are turned to the same side. -/
theorem oriented_negated {c : Constraint F} (hrhs : c.rhs ≠ 0) (n : Nat) : c.negated.oriented n = c.oriented n := by
  rcases lt_or_gt_of_ne hrhs with hneg | hpos
  · have hnot : ¬ -c.rhs < 0 := not_lt.2 (neg_nonneg.2 hneg.le)
    rw [oriented, oriented, if_pos hneg, padded_negated]
    exact if_neg hnot
  · have hlt : -c.rhs < 0 := neg_lt_zero.2 hpos
    rw [oriented, oriented, if_neg (not_lt.2 hpos.le), padded_negated, List.map_map]
    refine (if_pos hlt).trans ?_
    simp [negated]

end Constraint

/-- Both lists have the same oriented constraints of each relation, in the same order, and none of the second list is
    too long unless one of the first list is. -/
structure Alike (n : Nat) (l l' : List (Constraint F)) : Prop where
  filter_eq : ∀ r, (l'.map (·.oriented n)).filter (·.relation = r) = (l.map (·.oriented n)).filter (·.relation = r)
  length_le : (∀ c ∈ l, c.coefficients.length ≤ n) → ∀ c ∈ l', c.coefficients.length ≤ n

namespace Alike

variable {n : Nat} {l l' l'' : List (Constraint F)}

theorem refl (n : Nat) (l : List (Constraint F)) : Alike n l l := ⟨fun _ => rfl, fun h => h⟩

theorem trans (h : Alike n l l') (h' : Alike n l' l'') : Alike n l l'' :=
  ⟨fun r => (h'.filter_eq r).trans (h.filter_eq r), fun hlen => h'.length_le (h.length_le hlen)⟩

/-- One constraint is exchanged for another one that is the same once oriented. -/
theorem exchange (before after : List (Constraint F)) {c c' : Constraint F} (horiented : c'.oriented n = c.oriented n)
    (hlen : c.coefficients.length ≤ n → c'.coefficients.length ≤ n) :
    Alike n (before ++ c :: after) (before ++ c' :: after) where
  filter_eq r := by rw [List.map_append, List.map_append, List.map_cons, List.map_cons, horiented]
  length_le h := by
    simp only [List.forall_mem_append, List.forall_mem_cons] at h ⊢
    exact ⟨h.1, hlen h.2.1, h.2.2⟩

/-- The constraints are put in another order. -/
theorem reorder (place : Fin l'.length ≃ Fin l.length) (same : ∀ i, l'.get i = l.get (place i))
    (order : ∀ i k, i < k → (l'.get i).facing = (l'.get k).facing → place i < place k) : Alike n l l' where
  filter_eq r := by
    have hrelation : ∀ c : Constraint F, (c.oriented n).relation = c.facing := fun c => by rw [c.oriented_eq]
    have hfilter : l'.filter (fun c => (c.oriented n).relation = r) =
        l.filter fun c => (c.oriented n).relation = r := by
      refine filter_eq_of_reorder place same _ fun i k hik hi hk => order i k hik ?_
      rw [← hrelation, ← hrelation, of_decide_eq_true hi, of_decide_eq_true hk]
    rw [List.filter_map, List.filter_map]
    exact congrArg _ hfilter
  length_le h c hc := by
    obtain ⟨i, rfl⟩ := List.get_of_mem hc
    rw [same]
    exact h _ (List.get_mem ..)

end Alike

variable [IsStrictOrderedRing F]

theorem Rewords.alike {n : Nat} {l l' : List (Constraint F)} (h : Rewords n l l') : Alike n l l' := by
  cases h with
  | negate before after hrhs =>
    exact .exchange before after (Constraint.oriented_negated hrhs n) fun hlen => (List.length_map _).trans_le hlen
  | extend before after hk =>
    refine .exchange before after (Constraint.oriented_extended hk) fun _ => ?_
    rwa [Constraint.extended, List.length_append, List.length_replicate]
  | reorder place same order => exact .reorder place same order

/-- What one step keeps, any number of steps keeps. -/
theorem alike_of_rewords {n : Nat} {l l' : List (Constraint F)} (h : Relation.ReflTransGen (Rewords n) l l') :
    Alike n l l' := by
  induction h with
  | refl => exact .refl n l
  | tail _ hstep ih => exact ih.trans hstep.alike

/-! ## The same tableau -/

namespace Program

variable {p q : Program F}

omit [IsStrictOrderedRing F] in
/-- A tableau is made of the layout, the rows and the right-hand sides, and of nothing else. -/
theorem tableau_congr (hp : p.fault? = none) (hq : q.fault? = none) (hlayout : q.layout = p.layout)
    (hrows : q.rows = p.rows) (hlevels : q.levels = p.levels) :
    (⟨q.layout, q.tableau⟩ : Σ L : Layout, Journal (Event F L) (Inconsistency F) (Tableau F L L.rows)) =
      ⟨p.layout, p.tableau⟩ := by
  rw [tableau, tableau, hp, hq, hrows, hlevels, hlayout]

omit [IsStrictOrderedRing F] in
theorem tableau_eq_of_alike {constraints : List (Constraint F)} (hp : p.fault? = none)
    (h : Alike p.variableCount p.constraints constraints) :
    (⟨{ p with constraints }.layout, { p with constraints }.tableau⟩ :
      Σ L : Layout, Journal (Event F L) (Inconsistency F) (Tableau F L L.rows)) = ⟨p.layout, p.tableau⟩ := by
  have hwell := fault?_eq_none_iff.1 hp
  have hfault : { p with constraints }.fault? = none :=
    fault?_eq_none_iff.2 ⟨hwell.cost_ne_nil, hwell.cost_finite, h.length_le hwell.length_le, fun _ _ _ _ => rfl,
      fun _ _ => rfl⟩
  have horiented : ∀ r, { p with constraints }.orientedWith r = p.orientedWith r := h.filter_eq
  have hordered : { p with constraints }.ordered = p.ordered := by
    rw [ordered, ordered, horiented, horiented, horiented]
  have hlayout : { p with constraints }.layout = p.layout := by
    rw [layout, layout, horiented, horiented, horiented]
    rfl
  refine tableau_congr hp hfault hlayout ?_ ?_
  · rw [rows, rows, hordered, hlayout]
  · rw [levels, levels, hordered]

/-- **The first tableau does not see how a program is written down.**  Let constraints of an accepted program with a
    right-hand side other than zero be negated, constraints be extended by zeros up to the number of variables, and
    all of them be put in an order that keeps the order of those which face the same way, in any number of steps.  The
    first tableau stays the same, and so does the whole run from there, whatever the options. -/
theorem reworded (hp : ∃ t, p.tableau.result = .ok t) {constraints : List (Constraint F)}
    (h : Relation.ReflTransGen (Rewords p.variableCount) p.constraints constraints) :
    (⟨{ p with constraints }.layout, { p with constraints }.tableau⟩ :
      Σ L : Layout, Journal (Event F L) (Inconsistency F) (Tableau F L L.rows)) = ⟨p.layout, p.tableau⟩ ∧
    ∀ options : Options F, (⟨{ p with constraints }.layout, { p with constraints }.solve options⟩ :
      Σ L : Layout, Journal (Event F L) (SolveError F F) (Outcome F L)) = ⟨p.layout, p.solve options⟩ := by
  obtain ⟨t, ht⟩ := hp
  have htableau := tableau_eq_of_alike (fault?_eq_none ht) (alike_of_rewords h)
  refine ⟨htableau, fun options => ?_⟩
  -- after its first tableau, a run only asks for the direction and the costs
  exact congrArg (fun s : Σ L : Layout, Journal (Event F L) (Inconsistency F) (Tableau F L L.rows) =>
    (⟨s.1, s.2.mapError .inconsistent >>= fun t => t.solve options p.direction p.cost⟩ :
      Σ L : Layout, Journal (Event F L) (SolveError F F) (Outcome F L))) htableau

/-- A program that leaves out what it can. -/
def terse : Program ℚ where
  direction := .minimize
  cost := [1, 3]
  constraints := [⟨[1], .ge, 1⟩, ⟨[1, 1], .eq, 2⟩, ⟨[0, 1], .ge, 0⟩]

/-- In `terse` the equation can be put first and negated, and the missing coefficient written down. -/
theorem reworded_terse : (∃ t, terse.tableau.result = .ok t) ∧
    Relation.ReflTransGen (Rewords 2) terse.constraints [⟨[-1, -1], .eq, -2⟩, ⟨[1, 0], .ge, 1⟩, ⟨[0, 1], .ge, 0⟩] ∧
    ∀ options : Options ℚ,
      (⟨_, (⟨.minimize, [1, 3], [⟨[-1, -1], .eq, -2⟩, ⟨[1, 0], .ge, 1⟩, ⟨[0, 1], .ge, 0⟩]⟩ : Program ℚ).solve options⟩ :
        Σ L : Layout, Journal (Event ℚ L) (SolveError ℚ ℚ) (Outcome ℚ L)) = ⟨_, terse.solve options⟩ := by
  have haccepted : ∃ t, terse.tableau.result = .ok t := exists_tableau_of_isOk (by decide +kernel)
  have hmoved : Rewords 2 terse.constraints [⟨[1, 1], .eq, 2⟩, ⟨[1], .ge, 1⟩, ⟨[0, 1], .ge, 0⟩] := by
    refine .reorder (Equiv.swap (0 : Fin 3) 1) (fun i => ?_) (by decide +kernel)
    fin_cases i <;> rfl
  have hsteps : Relation.ReflTransGen (Rewords 2) terse.constraints
      [⟨[-1, -1], .eq, -2⟩, ⟨[1, 0], .ge, 1⟩, ⟨[0, 1], .ge, 0⟩] :=
    ((Relation.ReflTransGen.single hmoved).tail
      (.extend (k := 1) [⟨[1, 1], .eq, 2⟩] [⟨[0, 1], .ge, 0⟩] (c := ⟨[1], .ge, 1⟩) (by decide))).tail
        (.negate [] _ (c := ⟨[1, 1], .eq, 2⟩) (by decide +kernel))
  exact ⟨haccepted, hsteps, (reworded haccepted hsteps).2⟩

end Program

end Simplex
