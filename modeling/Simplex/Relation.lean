/-
  The relations between the two sides of a constraint, and the direction of an objective.
-/

namespace Simplex

/-! ## Relations -/

/-- How the left side of a constraint compares with its right side. -/
inductive Relation where
  | le
  | ge
  | eq
  deriving DecidableEq, Repr

namespace Relation

/-- The relation between the negated sides. -/
def flip : Relation → Relation
  | le => ge
  | ge => le
  | eq => eq

/-- The relation as it is written. -/
def symbol : Relation → String
  | le => "<="
  | ge => ">="
  | eq => "="

@[simp] theorem flip_flip (r : Relation) : r.flip.flip = r := by cases r <;> rfl

end Relation

/-! ## Directions -/

/-- Is the smallest or the largest value sought? -/
inductive Direction where
  | minimize
  | maximize
  deriving DecidableEq, Repr

instance : Inhabited Direction := ⟨.minimize⟩

/-- A maximum is found as the minimum of the negated values, and reported negated again. -/
def Direction.orient {F : Type} [Neg F] : Direction → F → F
  | .minimize, x => x
  | .maximize, x => -x

end Simplex
