/-
  Tableaux as text.

  The table has a heading with the names of the columns, the objective row, and a row per constraint with the
  name of its basic variable in front.  Cells are written with a fixed number of places and aligned to the
  right in columns as wide as their widest cell; the name of a column that may not enter the basis stands in
  brackets.  Lines of dashes set the heading and the objective row apart.
-/
import Simplex.Decimal.Numeral
import Simplex.Tableau.Basic

namespace Simplex

/-! ## Alignment -/

/-- Blanks in front until the text is so wide. -/
def alignRight (width : Nat) (text : String) : String :=
  String.ofList (List.replicate (width - text.length) ' ') ++ text

/-- The greatest of some widths. -/
def widest (widths : List Nat) : Nat := widths.foldl max 0

/-- Texts side by side, each aligned to the right in its own width. -/
def alignCells (widths : List Nat) (cells : List String) : String :=
  " ".intercalate (List.zipWith alignRight widths cells)

/-- The widths of the columns of a grid, none for a grid without lines. -/
def columnWidths : List (List String) → List Nat
  | [] => []
  | [line] => line.map String.length
  | line :: rest => List.zipWith max (line.map String.length) (columnWidths rest)

namespace Tableau

variable {F : Type} {L : Layout} {m : Nat}

/-! ## The parts of the table -/

/-- How many places are written if nobody asks for a number of them. -/
def defaultPlaces : Nat := 3

/-- The names of the columns, in brackets if they may not enter, and of the right-hand side. -/
def heading (t : Tableau F L m) : List String :=
  (List.finRange L.columns).map (fun j =>
    if t.isEligible j then L.label j else "(" ++ L.label j ++ ")") ++ ["rhs"]

/-- The names in front of the rows, the objective first. -/
def rowNames (t : Tableau F L m) : List String := "z" :: t.basis.map fun j => L.label j.val

/-- The cells of the rows as texts, the objective first. -/
def grid [Numeral F] (t : Tableau F L m) (places : Nat) : List (List String) :=
  (t.objective :: t.rows.toList.map (·.line)).map fun l => l.cells.map (Numeral.fixed places)

/-! ## The table -/

/-- The lines of the table. -/
def displayLines [Numeral F] (t : Tableau F L m) (places : Nat) : List String :=
  let names := t.rowNames
  let cells := t.grid places
  let nameWidth := widest (names.map String.length)
  let widths := columnWidths (t.heading :: cells)
  let line name cells := alignRight nameWidth name ++ " | " ++ alignCells widths cells
  -- a name, the bar with its blanks, and a blank after every cell
  let width := widths.foldl (fun total width => total + (width + 1)) (nameWidth + 3)
  let dashes := String.ofList (List.replicate width '-')
  let body := List.zipWith line names cells
  ["=== Tableau ===", line "" t.heading, dashes] ++ body.take 1 ++ [dashes] ++ body.drop 1

/-- The tableau as text, with the given number of places. -/
def display [Numeral F] (t : Tableau F L m) (places : Nat) : String :=
  String.join ((t.displayLines places).map (· ++ "\n"))

end Tableau

example : alignCells [4, 2] ["1.0", "x"] = " 1.0  x" := by decide +kernel
example : columnWidths [["x1", "rhs"], ["0.500", "4"]] = [5, 3] := by decide +kernel

end Simplex
