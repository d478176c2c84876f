/-
  What a program says.

  1. `dot` — the left side of a constraint: coefficients times variables.  What has no partner in the shorter list
     counts for nothing, so a constraint that leaves out coefficients at its end has zeros there.
  2. `Constraint.Holds`, `Program.Feasible`, `Program.costAt` — the stated program, read literally and without
     regard to tableaux.  All of it can be computed.
  3. `Constraint.holds_oriented_iff`, `Constraint.gap_oriented` — padding a constraint and turning it around changes
     nothing about it, and `Program.forall_mem_ordered_iff` — neither does the order of the rows.
-/
import Mathlib.Algebra.BigOperators.Fin
import Mathlib.Data.List.GetD
import Simplex.Proofs.Exact
import Simplex.Proofs.Rows

namespace Simplex

variable {F : Type} [Field F]

/-! ## Coefficients times variables -/

/-- The sum of the products of the two lists, position by position. -/
def dot : List F → List F → F
  | a :: as, x :: xs => a * x + dot as xs
  | _, _ => 0

@[simp] theorem dot_nil (x : List F) : dot [] x = 0 := by simp [dot]

@[simp] theorem dot_nil_right (a : List F) : dot a [] = 0 := by simp [dot]

@[simp] theorem dot_cons (a x : F) (as xs : List F) : dot (a :: as) (x :: xs) = a * x + dot as xs := by
  rw [dot]

/-- Zeros at the end count for nothing. -/
theorem dot_append_zeros : ∀ (a x : List F) (k : Nat), dot (a ++ List.replicate k 0) x = dot a x
  | [], [], k => by simp
  | [], x :: xs, 0 => by simp
  | [], x :: xs, k + 1 => by
    have ih := dot_append_zeros [] xs k
    rw [List.nil_append, dot_nil] at ih
    rw [List.nil_append, List.replicate_succ, dot_cons, ih, dot_nil]
    ring
  | a :: as, [], k => by simp
  | a :: as, x :: xs, k => by rw [List.cons_append, dot_cons, dot_append_zeros as xs k, dot_cons]

/-- Changing all signs changes the sign of the sum. -/
theorem dot_map_neg : ∀ a x : List F, dot (a.map (- ·)) x = -dot a x
  | [], x => by simp
  | a :: as, [] => by simp
  | a :: as, x :: xs => by
    rw [List.map_cons, dot_cons, dot_cons, dot_map_neg as xs]
    ring

/-- Variables without a coefficient count for nothing. -/
theorem dot_take : ∀ (a x : List F) {k : Nat}, a.length ≤ k → dot a (x.take k) = dot a x
  | [], x, k, _ => by simp
  | a :: as, [], k, _ => by simp
  | a :: as, x :: xs, k + 1, h => by
    rw [List.take_succ_cons, dot_cons, dot_cons, dot_take as xs (Nat.le_of_succ_le_succ h)]

/-- Column by column. -/
theorem dot_ofFn : ∀ {n : Nat} (a : List F) (x : Fin n → F),
    dot a (List.ofFn x) = ∑ j : Fin n, a.getD j 0 * x j
  | 0, a, x => by simp
  | n + 1, [], x => by simp
  | n + 1, a :: as, x => by
    rw [List.ofFn_succ, dot_cons, dot_ofFn as, Fin.sum_univ_succ]
    simp

/-! ## Constraints and programs -/

variable [LinearOrder F]

omit [Field F] in
theorem getD_nonneg [Zero F] {l : List F} (h : ∀ v ∈ l, 0 ≤ v) (k : Nat) : 0 ≤ l.getD k 0 := by
  rcases Nat.lt_or_ge k l.length with hk | hk
  · rw [List.getD_eq_getElem _ _ hk]
    exact h _ (List.getElem_mem hk)
  · rw [List.getD_eq_default _ _ hk]

/-- The relation between two numbers. -/
def Relation.Holds : Relation → F → F → Prop
  | .le, a, b => a ≤ b
  | .ge, a, b => b ≤ a
  | .eq, a, b => a = b

instance (r : Relation) (a b : F) : Decidable (r.Holds a b) :=
  match r with
  | .le => inferInstanceAs (Decidable (a ≤ b))
  | .ge => inferInstanceAs (Decidable (b ≤ a))
  | .eq => inferInstanceAs (Decidable (a = b))

/-- The constraint is satisfied by the given values of the variables. -/
def Constraint.Holds (c : Constraint F) (x : List F) : Prop :=
  c.relation.Holds (dot c.coefficients x) c.rhs

instance (c : Constraint F) (x : List F) : Decidable (c.Holds x) :=
  inferInstanceAs (Decidable (c.relation.Holds _ _))

/-- How far the two sides of the constraint are apart. -/
def Constraint.gap (c : Constraint F) (x : List F) : F := |dot c.coefficients x - c.rhs|

namespace Program

/-- One nonnegative value per variable that together satisfy every constraint. -/
structure Feasible (p : Program F) (x : List F) : Prop where
  length_eq : x.length = p.cost.length
  nonneg : ∀ v ∈ x, 0 ≤ v
  holds : ∀ c ∈ p.constraints, c.Holds x

instance (p : Program F) (x : List F) : Decidable (p.Feasible x) :=
  decidable_of_iff (x.length = p.cost.length ∧ (∀ v ∈ x, 0 ≤ v) ∧ ∀ c ∈ p.constraints, c.Holds x)
    ⟨fun h => ⟨h.1, h.2.1, h.2.2⟩, fun h => ⟨h.length_eq, h.nonneg, h.holds⟩⟩

/-- The cost of the given values of the variables. -/
def costAt (p : Program F) (x : List F) : F := dot p.cost x

end Program

namespace Direction

/-- The cost `v` is at least as good as the cost `w`. -/
def NoWorse : Direction → F → F → Prop
  | .minimize, v, w => v ≤ w
  | .maximize, v, w => w ≤ v

/-- The cost `v` is better than the cost `w`. -/
def Better : Direction → F → F → Prop
  | .minimize, v, w => v < w
  | .maximize, v, w => w < v

end Direction

/-! ## Orientation -/

variable [IsStrictOrderedRing F]

namespace Direction

omit [LinearOrder F] [IsStrictOrderedRing F] in
@[simp] theorem orient_orient (d : Direction) (v : F) : d.orient (d.orient v) = v := by
  cases d with
  | minimize => rfl
  | maximize => exact neg_neg v

/-- Better costs are lower after orientation. -/
theorem orient_le_orient_iff (d : Direction) (v w : F) :
    d.orient v ≤ d.orient w ↔ d.NoWorse v w := by
  cases d with
  | minimize => exact Iff.rfl
  | maximize => exact neg_le_neg_iff

/-- Less is better once the direction is taken into account. -/
theorem orient_lt_orient_iff (d : Direction) (v w : F) :
    d.orient v < d.orient w ↔ d.Better v w := by
  cases d with
  | minimize => exact Iff.rfl
  | maximize => exact neg_lt_neg_iff

end Direction

/-- Negating both sides flips the relation. -/
theorem Relation.holds_flip_neg_iff (r : Relation) (a b : F) :
    r.flip.Holds (-a) (-b) ↔ r.Holds a b := by
  cases r with
  | le => exact neg_le_neg_iff
  | ge => exact neg_le_neg_iff
  | eq => exact neg_inj

namespace Constraint

omit [IsStrictOrderedRing F] in
/-- Zeros that are filled in count for nothing. -/
theorem dot_padded (c : Constraint F) (n : Nat) (x : List F) :
    dot (c.padded n) x = dot c.coefficients x := dot_append_zeros ..

/-- A constraint says the same after it is oriented. -/
theorem holds_oriented_iff (c : Constraint F) (n : Nat) (x : List F) :
    (c.oriented n).Holds x ↔ c.Holds x := by
  rw [oriented]
  split
  · show c.relation.flip.Holds (dot ((c.padded n).map (- ·)) x) (-c.rhs) ↔ _
    rw [dot_map_neg, dot_padded]
    exact c.relation.holds_flip_neg_iff _ _
  · show c.relation.Holds (dot (c.padded n) x) c.rhs ↔ _
    rw [dot_padded]
    rfl

omit [IsStrictOrderedRing F] in
/-- The sides of a constraint are as far apart after it is oriented. -/
theorem gap_oriented (c : Constraint F) (n : Nat) (x : List F) : (c.oriented n).gap x = c.gap x := by
  rw [oriented]
  split
  · have hneg : dot ((c.padded n).map (- ·)) x - -c.rhs = -(dot c.coefficients x - c.rhs) := by
      rw [dot_map_neg, dot_padded]
      ring
    show |dot ((c.padded n).map (- ·)) x - -c.rhs| = _
    rw [hneg, abs_neg]
    rfl
  · show |dot (c.padded n) x - c.rhs| = _
    rw [dot_padded]
    rfl

end Constraint

/-- The oriented constraints in the order of the rows say the same as the stated ones. -/
theorem Program.forall_mem_ordered_iff {p : Program F} {x : List F} :
    (∀ c ∈ p.ordered, c.Holds x) ↔ ∀ c ∈ p.constraints, c.Holds x := by
  constructor
  · intro h c hc
    have hmem : c.oriented p.variableCount ∈ p.ordered :=
      mem_ordered_iff.2 (List.mem_map_of_mem hc)
    exact (c.holds_oriented_iff _ x).1 (h _ hmem)
  · intro h c hc
    obtain ⟨c', hc', rfl⟩ := List.mem_map.1 (mem_ordered_iff.1 hc)
    exact (c'.holds_oriented_iff _ x).2 (h c' hc')

end Simplex
