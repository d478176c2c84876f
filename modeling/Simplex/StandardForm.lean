/-
  From a program to its first tableau.

  1. Every constraint is padded with zeros to the number of variables, and turned around if its right-hand side
     is negative: both sides are negated, so the relation flips.
  2. The constraints are ordered `<=`, `>=`, `=`, keeping the stated order among those of one relation, which
     gives the layout.
  3. A row of the tableau has the coefficients of its constraint on the decision columns, a one in its first
     basic column, minus one in its surplus column if it has one, and zeros elsewhere.
-/
import Simplex.Event
import Simplex.Journal
import Simplex.Program

namespace Simplex

variable {F : Type} [Scalar F]

namespace Constraint

/-- The coefficients of all `n` variables. -/
def padded (n : Nat) (c : Constraint F) : List F :=
  c.coefficients ++ List.replicate (n - c.coefficients.length) 0

/-- The same constraint with a coefficient for every variable and no negative right-hand side. -/
def oriented (n : Nat) (c : Constraint F) : Constraint F :=
  if c.rhs < 0 then ⟨(c.padded n).map (- ·), c.relation.flip, -c.rhs⟩
  else ⟨c.padded n, c.relation, c.rhs⟩

end Constraint

/-- The `i`-th row of a tableau with layout `L`, for a constraint with the given coefficients. -/
def Layout.row (L : Layout) (i : Nat) (coefficients : List F) : List F :=
  (List.range L.columns).map fun j =>
    if j = L.initialColumn i then 1
    else if L.surplusColumn? i = some j then -1
    else coefficients.getD j 0

namespace Program

variable (p : Program F)

/-- The constraints, each padded and turned so that its right-hand side is not negative. -/
def oriented : List (Constraint F) := p.constraints.map (·.oriented p.variableCount)

/-- The oriented constraints with the given relation, in the stated order. -/
def orientedWith (r : Relation) : List (Constraint F) := p.oriented.filter (·.relation = r)

/-- The oriented constraints in the order of the rows. -/
def ordered : List (Constraint F) :=
  p.orientedWith .le ++ p.orientedWith .ge ++ p.orientedWith .eq

/-- The layout of the tableau. -/
def layout : Layout where
  decision := p.variableCount
  less := (p.orientedWith .le).length
  greater := (p.orientedWith .ge).length
  equal := (p.orientedWith .eq).length

/-- The rows of the tableau. -/
def rows : List (List F) := p.ordered.zipIdx.map fun (c, i) => p.layout.row i c.coefficients

/-- The right-hand sides of the tableau. -/
def levels : List F := p.ordered.map (·.rhs)

/-- The first tableau of the program. -/
def tableau : Journal (Event F p.layout) (Inconsistency F) (Tableau F p.layout p.layout.rows) :=
  match p.fault? with
  | some cause => .fail cause
  | none => do
    .note .derived
    .ofExcept (Tableau.ofRows p.layout p.rows p.levels)

end Program

/-! ## A program with one constraint of each kind -/

/-- Three constraints on two variables; the last one has a negative right-hand side. -/
def Program.sample : Program Float where
  direction := .minimize
  cost := [1, 2]
  constraints := [⟨[1, -1], .eq, 1⟩, ⟨[1, 2], .ge, 4⟩, ⟨[-1, -1], .ge, -6⟩]

example : Program.sample.layout = ⟨2, 1, 1, 1⟩ := by decide +kernel
example : Program.sample.rows.map (·.map Numeral.text) =
    [["1", "1", "1", "0", "0", "0"],        -- turned around, so it comes first
     ["1", "2", "0", "-1", "1", "0"],
     ["1", "-1", "0", "0", "0", "1"]] := by decide +kernel
example : Program.sample.levels.map Numeral.text = ["6", "4", "1"] := by decide +kernel

end Simplex
