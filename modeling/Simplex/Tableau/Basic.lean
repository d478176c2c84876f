/-
  The simplex tableau.

  A tableau states linear equations, one per row, solved for the basic variable of each row, and a linear
  objective written in terms of the other variables.  Its columns are those of a `Layout`; the number of rows
  is part of its type and may be below that of the layout, because redundant rows can be removed.

  * `entry t i j`, `level t i`, `basic t i` — coefficient, right-hand side and basic column of row `i`;
  * `cost t j` — the relative cost of column `j`;
  * `value t` — the objective at the basic solution.  The objective row's last cell holds its negation;
  * `basicSolution t` — every basic variable at the level of its row, every other variable at zero.  A run keeps it
    in a buffer that is rewritten in place (`writeSolution`).

  Rows and columns are counted by `Fin`, so no index can leave the tableau.

  `Tableau.ofRows` is the only way in from outside: it accepts rows that fit the layout, have finite
  nonnegative right-hand sides, and carry the unit columns of the layout's first basis.
-/
import Simplex.Error
import Simplex.Layout
import Simplex.Tableau.Line

namespace Simplex

/-- A search through numbered elements that does not look at the numbers finds nothing exactly when no element
    is wanted. -/
theorem find?_zipIdx_eq_none_iff {α : Type} (wanted : α → Bool) {test : α × Nat → Bool} {l : List α}
    (htest : ∀ a k, test (a, k) = wanted a) : l.zipIdx.find? test = none ↔ ∀ a ∈ l, wanted a = false := by
  rw [List.find?_eq_none]
  constructor
  · intro h a ha
    obtain ⟨k, hk⟩ := List.mem_iff_getElem?.1 ha
    have hnot := h (a, k) (List.mk_mem_zipIdx_iff_getElem?.2 hk)
    rw [htest] at hnot
    exact Bool.of_not_eq_true hnot
  · rintro h ⟨a, k⟩ hmem
    rw [htest, h a (List.mem_of_getElem? (List.mk_mem_zipIdx_iff_getElem?.1 hmem))]
    exact Bool.false_ne_true

/-! ## Rows and tableaux -/

/-- A constraint row and the column that is basic in it. -/
structure Row (F : Type) (n : Nat) where
  line : Line F n
  basic : Fin n

/-- A tableau with the columns of `L` and `m` constraint rows. -/
structure Tableau (F : Type) (L : Layout) (m : Nat) where
  rows : Vector (Row F L.columns) m
  objective : Line F L.columns
  /-- May the column enter the basis? -/
  eligible : Vector Bool L.columns

namespace Tableau

variable {F : Type} {L : Layout} {m : Nat}

/-- Row `i`. -/
def row (t : Tableau F L m) (i : Fin m) : Row F L.columns := t.rows.get i

/-- The coefficient of column `j` in row `i`. -/
def entry (t : Tableau F L m) (i : Fin m) (j : Fin L.columns) : F := (t.row i).line.cell j

/-- The right-hand side of row `i`. -/
def level (t : Tableau F L m) (i : Fin m) : F := (t.row i).line.rhs

/-- The basic column of row `i`. -/
def basic (t : Tableau F L m) (i : Fin m) : Fin L.columns := (t.row i).basic

/-- The relative cost of column `j`. -/
def cost (t : Tableau F L m) (j : Fin L.columns) : F := t.objective.cell j

/-- The value of the objective at the basic solution. -/
def value [Neg F] (t : Tableau F L m) : F := -t.objective.rhs

/-- May column `j` enter the basis? -/
def isEligible (t : Tableau F L m) (j : Fin L.columns) : Bool := t.eligible.get j

/-- The basic columns, row by row. -/
def basis (t : Tableau F L m) : List (Fin L.columns) := t.rows.toList.map (·.basic)

/-- The row in which column `j` is basic. -/
def rowOf? (t : Tableau F L m) (j : Fin L.columns) : Option (Fin m) :=
  (List.finRange m).find? fun i => t.basic i == j

/-- Is column `j` basic in some row? -/
def isBasic (t : Tableau F L m) (j : Fin L.columns) : Bool := (t.rowOf? j).isSome

/-- Is an artificial variable basic in some row? -/
def hasArtificialBasic (t : Tableau F L m) : Bool := t.basis.any fun j => L.isArtificial j

/-- The columns that may enter the basis and are not in it, from left to right. -/
def candidates (t : Tableau F L m) : List (Fin L.columns) :=
  (List.finRange L.columns).filter fun j => t.isEligible j && !t.isBasic j

/-- The value of variable `j` in the basic solution. -/
def solutionAt [Zero F] (t : Tableau F L m) (j : Fin L.columns) : F :=
  match t.rowOf? j with
  | some i => t.level i
  | none => 0

/-- The basic solution: basic variables at the levels of their rows, all others at zero. -/
def basicSolution [Zero F] (t : Tableau F L m) : Vector F L.columns := Vector.ofFn t.solutionAt

/-- Rewrite a buffer in place: first zeros, then the level of every row in the place of its basic column. -/
def writeSolution [Zero F] (t : Tableau F L m) (buffer : Vector F L.columns) : Vector F L.columns :=
  (List.finRange m).foldl (fun x i => x.set (t.basic i) (t.level i)) (buffer.map fun _ => 0)

/-! ## Small facts about the views -/

theorem toList_rows (t : Tableau F L m) : t.rows.toList = (List.finRange m).map t.row := by
  refine List.ext_getElem (by simp) ?_
  intro k hk _
  simp [row, get_eq_getElem]

theorem basis_eq_map (t : Tableau F L m) : t.basis = (List.finRange m).map t.basic := by
  rw [basis, toList_rows, List.map_map]
  rfl

/-- The row found for a column has it as its basic column. -/
theorem basic_of_rowOf? {t : Tableau F L m} {j : Fin L.columns} {i : Fin m}
    (h : t.rowOf? j = some i) : t.basic i = j := by
  have h' := List.find?_some h
  simpa using h'

/-- A column is basic if it is the basic column of some row. -/
theorem isBasic_iff {t : Tableau F L m} {j : Fin L.columns} :
    t.isBasic j = true ↔ ∃ i, t.basic i = j := by
  constructor
  · intro h
    obtain ⟨i, hi⟩ := Option.isSome_iff_exists.1 h
    exact ⟨i, basic_of_rowOf? hi⟩
  · rintro ⟨i, hi⟩
    rw [isBasic, rowOf?, List.find?_isSome]
    exact ⟨i, List.mem_finRange i, by simp [hi]⟩

theorem rowOf?_of_not_basic {t : Tableau F L m} {j : Fin L.columns} (h : t.isBasic j = false) :
    t.rowOf? j = none :=
  Option.not_isSome_iff_eq_none.1 (by rw [← isBasic, h]; exact Bool.false_ne_true)

/-- Where no column is basic in two rows, the row of a basic column is found. -/
theorem rowOf?_basic {t : Tableau F L m} (h : Function.Injective t.basic) (i : Fin m) :
    t.rowOf? (t.basic i) = some i := by
  have hb : t.isBasic (t.basic i) = true := isBasic_iff.2 ⟨i, rfl⟩
  obtain ⟨k, hk⟩ := Option.isSome_iff_exists.1 hb
  rw [hk, h (basic_of_rowOf? hk)]

/-- Columns outside the basis are at zero. -/
theorem solutionAt_of_not_basic [Zero F] {t : Tableau F L m} {j : Fin L.columns} (h : t.isBasic j = false) :
    t.solutionAt j = 0 := by
  rw [solutionAt, rowOf?_of_not_basic h]

/-- The others are at the level of their row, if no two rows share one. -/
theorem solutionAt_basic [Zero F] {t : Tableau F L m} (h : Function.Injective t.basic) (i : Fin m) :
    t.solutionAt (t.basic i) = t.level i := by
  rw [solutionAt, rowOf?_basic h]

@[simp] theorem get_basicSolution [Zero F] (t : Tableau F L m) (j : Fin L.columns) :
    t.basicSolution.get j = t.solutionAt j := by
  simp [basicSolution, get_eq_getElem]

/-- The candidates are the eligible columns outside the basis. -/
theorem mem_candidates {t : Tableau F L m} {j : Fin L.columns} :
    j ∈ t.candidates ↔ t.isEligible j = true ∧ t.isBasic j = false := by
  simp [candidates, List.mem_filter, List.mem_finRange]

/-! ## The buffer -/

section Buffer

variable {t : Tableau F L m} {j : Fin L.columns}

/-- Writing levels to basic columns leaves every other place as it was. -/
theorem get_foldl_set_of_ne : ∀ (is : List (Fin m)) (x : Vector F L.columns), (∀ i ∈ is, t.basic i ≠ j) →
    (is.foldl (fun x i => x.set (t.basic i) (t.level i)) x).get j = x.get j
  | [], x, _ => rfl
  | i :: is, x, h => by
    have hne : (t.basic i).val ≠ j.val := fun e => h i (List.mem_cons_self ..) (Fin.ext e)
    rw [List.foldl_cons, get_foldl_set_of_ne is _ fun k hk => h k (List.mem_cons_of_mem _ hk)]
    simp [get_eq_getElem, hne]

/-- If no two rows share a basic column, every level that was written is still there at the end. -/
theorem get_foldl_set_basic (h : Function.Injective t.basic) {i : Fin m} : ∀ (is : List (Fin m))
    (x : Vector F L.columns), i ∈ is →
      (is.foldl (fun x i => x.set (t.basic i) (t.level i)) x).get (t.basic i) = t.level i
  | k :: is, x, hi => by
    rw [List.foldl_cons]
    by_cases hrest : i ∈ is
    · exact get_foldl_set_basic h is _ hrest
    · -- the row is the first one, and no later row writes to its place
      have hik : i = k := (List.mem_cons.1 hi).resolve_right hrest
      have hlater : ∀ r ∈ is, t.basic r ≠ t.basic i := by
        intro r hr hri
        rw [h hri] at hr
        exact hrest hr
      rw [get_foldl_set_of_ne is _ hlater, hik]
      simp [get_eq_getElem]

variable [Zero F]

/-- What was in the buffer does not matter. -/
theorem writeSolution_congr (t : Tableau F L m) (x y : Vector F L.columns) : t.writeSolution x = t.writeSolution y := by
  have hcleared : (x.map fun _ => (0 : F)) = y.map fun _ => 0 := by
    refine Vector.ext fun j hj => ?_
    simp
  rw [writeSolution, hcleared]
  rfl

/-- The places of columns outside the basis are cleared. -/
theorem get_writeSolution_of_not_basic (h : t.isBasic j = false) (buffer : Vector F L.columns) :
    (t.writeSolution buffer).get j = 0 := by
  have hne : ∀ i, t.basic i ≠ j := by
    intro i hi
    rw [isBasic_iff.2 ⟨i, hi⟩] at h
    cases h
  rw [writeSolution, get_foldl_set_of_ne _ _ fun i _ => hne i]
  simp [get_eq_getElem]

/-- If no column is basic in two rows, the buffer holds the basic solution afterwards. -/
theorem writeSolution_eq (h : Function.Injective t.basic) (buffer : Vector F L.columns) :
    t.writeSolution buffer = t.basicSolution := by
  refine Vector.ext fun j hj => ?_
  show (t.writeSolution buffer).get ⟨j, hj⟩ = t.basicSolution.get ⟨j, hj⟩
  rw [get_basicSolution]
  cases hb : t.isBasic ⟨j, hj⟩ with
  | true =>
    obtain ⟨i, hi⟩ := isBasic_iff.1 hb
    rw [← hi, solutionAt_basic h]
    exact get_foldl_set_basic h _ _ (List.mem_finRange i)
  | false => rw [solutionAt_of_not_basic hb, get_writeSolution_of_not_basic hb]

end Buffer

/-! ## From rows -/

section OfRows

variable [Scalar F]

/-- Is column `j` of the given rows the unit column of row `i`? -/
def isUnitColumn (rows : List (List F)) (i j : Nat) : Bool :=
  rows.zipIdx.all fun (row, k) => row.getD j 0 == if k = i then 1 else 0

/-- There are as many rows and right-hand sides as the layout has. -/
def countFault? (L : Layout) (rows : List (List F)) (levels : List F) : Option (Inconsistency F) :=
  if rows.length = L.rows ∧ levels.length = L.rows then none
  else some (.rowCount L.rows rows.length levels.length)

/-- Every row is as wide as the layout. -/
def widthFault? (L : Layout) (rows : List (List F)) : Option (Inconsistency F) :=
  (rows.zipIdx.find? fun (row, _) => row.length != L.columns).map fun (row, i) =>
    .rowWidth i row.length L.columns

/-- Every right-hand side is finite and not negative. -/
def levelFault? (levels : List F) : Option (Inconsistency F) :=
  (levels.zipIdx.find? fun (b, _) => !Scalar.isFinite b || b < 0).map fun (b, i) => .badLevel i b

/-- Every column of the first basis is a unit column. -/
def basisFault? (L : Layout) (rows : List (List F)) : Option (Inconsistency F) :=
  ((List.range L.rows).find? fun i => !isUnitColumn rows i (L.initialColumn i)).map fun i =>
    .notUnit (L.initialColumn i) i

/-- The first thing that keeps the rows from being a tableau. -/
def fault? (L : Layout) (rows : List (List F)) (levels : List F) : Option (Inconsistency F) :=
  (countFault? L rows levels).or <| (widthFault? L rows).or <|
    (levelFault? levels).or (basisFault? L rows)

/-- The given rows over the first basis, with no objective and every column eligible. -/
def fill (L : Layout) (rows : List (List F)) (levels : List F) : Tableau F L L.rows where
  rows := Vector.ofFn fun i =>
    { line := ⟨Vector.ofFn fun j => (rows.getD i []).getD j 0, levels.getD i 0⟩
      basic := L.basisColumn i }
  objective := .zero
  eligible := Vector.replicate _ true

/-- The tableau of the given rows and right-hand sides, if nothing is wrong with them. -/
def ofRows (L : Layout) (rows : List (List F)) (levels : List F) :
    Except (Inconsistency F) (Tableau F L L.rows) :=
  match fault? L rows levels with
  | some cause => .error cause
  | none => .ok (fill L rows levels)

@[simp] theorem row_fill (rows : List (List F)) (levels : List F) (i : Fin L.rows) :
    (fill L rows levels).row i =
      { line := ⟨Vector.ofFn fun j => (rows.getD i []).getD j 0, levels.getD i 0⟩
        basic := L.basisColumn i } := by
  simp [fill, row, get_eq_getElem]

@[simp] theorem basic_fill (rows : List (List F)) (levels : List F) (i : Fin L.rows) :
    (fill L rows levels).basic i = L.basisColumn i := by
  rw [basic, row_fill]

@[simp] theorem level_fill (rows : List (List F)) (levels : List F) (i : Fin L.rows) :
    (fill L rows levels).level i = levels.getD i 0 := by
  rw [level, row_fill]

/-- Coefficients that are missing are zero. -/
@[simp] theorem entry_fill (rows : List (List F)) (levels : List F) (i : Fin L.rows)
    (j : Fin L.columns) : (fill L rows levels).entry i j = (rows.getD i []).getD j 0 := by
  rw [entry, row_fill, Line.cell]
  simp [get_eq_getElem]

@[simp] theorem isEligible_fill (rows : List (List F)) (levels : List F) (j : Fin L.columns) :
    (fill L rows levels).isEligible j = true := by
  simp [fill, isEligible, get_eq_getElem]

/-! ## What is accepted -/

variable {rows : List (List F)} {levels : List F}

/-- A unit column has a one in its row and zeros in all others. -/
theorem isUnitColumn_iff {i j : Nat} : isUnitColumn rows i j = true ↔
    ∀ k row, rows[k]? = some row → (row.getD j 0 == if k = i then 1 else 0) = true := by
  rw [isUnitColumn, List.all_eq_true]
  constructor
  · intro h k row hrow
    exact h (row, k) (List.mk_mem_zipIdx_iff_getElem?.2 hrow)
  · rintro h ⟨row, k⟩ hmem
    exact h k row (List.mk_mem_zipIdx_iff_getElem?.1 hmem)

omit [Scalar F] in
/-- Nothing is wrong with the counts exactly if there are as many rows and levels as the layout has. -/
theorem countFault?_eq_none_iff :
    countFault? L rows levels = none ↔ rows.length = L.rows ∧ levels.length = L.rows := by
  rw [countFault?]
  split
  · rename_i h
    exact ⟨fun _ => h, fun _ => rfl⟩
  · rename_i h
    exact ⟨fun h' => (nomatch h'), fun h' => absurd h' h⟩

omit [Scalar F] in
/-- Nothing is wrong with the widths exactly if every row has a number for each column. -/
theorem widthFault?_eq_none_iff :
    widthFault? L rows = none ↔ ∀ row ∈ rows, row.length = L.columns := by
  rw [widthFault?, Option.map_eq_none_iff,
    find?_zipIdx_eq_none_iff (fun row => row.length != L.columns) fun _ _ => rfl]
  simp

/-- Nothing is wrong with the levels exactly if they are finite and not negative. -/
theorem levelFault?_eq_none_iff :
    levelFault? levels = none ↔ ∀ b ∈ levels, Scalar.isFinite b = true ∧ ¬ b < 0 := by
  rw [levelFault?, Option.map_eq_none_iff,
    find?_zipIdx_eq_none_iff (fun b => !Scalar.isFinite b || b < 0) fun _ _ => rfl]
  simp

/-- Nothing is wrong with the basis exactly if every row starts with a unit column. -/
theorem basisFault?_eq_none_iff : basisFault? L rows = none ↔
    ∀ i < L.rows, isUnitColumn rows i (L.initialColumn i) = true := by
  rw [basisFault?, Option.map_eq_none_iff, List.find?_eq_none]
  simp

/-- Rows are accepted exactly when nothing is wrong with them, and then filled in. -/
theorem ofRows_eq_ok_iff {t : Tableau F L L.rows} :
    ofRows L rows levels = .ok t ↔ fault? L rows levels = none ∧ fill L rows levels = t := by
  rw [ofRows]
  cases fault? L rows levels with
  | some cause => exact ⟨fun h => (nomatch h), fun h => (nomatch h.1)⟩
  | none => exact ⟨fun h => ⟨rfl, Except.ok.inj h⟩, fun h => congrArg _ h.2⟩

end OfRows

end Tableau

end Simplex
