/-
  What the parts of a tableau have to do with each other.

  A tableau can be kept as one long list of cells, with its number of rows, its basic columns in the order of the rows
  and the set of these columns noted beside it.  Every operation then has to update all of them.  That they stay in
  agreement is shown here for operations in any order and number, whatever the tolerances.

  1. `Books` — what is noted beside the cells, and `LeadsTo` — the tableaux that operations lead to from a first one,
     with the books after them.
  2. `Agrees` — the books are right about the tableau, the basic column of a row is the unit column of that row, and
     basic columns have relative cost zero as soon as costs were loaded.  One lemma per operation, then every tableau
     that is led to (`LeadsTo.agrees`).
  3. `cells` — the list of cells: line by line, the objective first and every right-hand side at the end of its line;
     `getElem?_cells_entry` and `getElem?_cells_cost` say where in it an entry and a relative cost stand.
  4. `represented` — rows are accepted exactly when they fit, and all that is led to from there is as it should be.
-/
import Simplex.Proofs.Exclusion
import Simplex.Proofs.Pricing
import Simplex.Proofs.StandardForm

namespace Simplex

/-! ## Lines of one length, one after the other -/

section Lists

variable {α β : Type} {f : α → List β} {width : Nat}

/-- So many lines of one width, one after the other. -/
theorem length_flatMap_of_length (hf : ∀ a, (f a).length = width) :
    ∀ l : List α, (l.flatMap f).length = l.length * width
  | [] => by simp
  | a :: l => by
    rw [List.flatMap_cons, List.length_append, hf, length_flatMap_of_length hf l, List.length_cons, Nat.succ_mul,
      Nat.add_comm]

/-- The `j`-th place of the `i`-th line. -/
theorem getElem?_flatMap_of_length (hf : ∀ a, (f a).length = width) {j : Nat} (hj : j < width) :
    ∀ (l : List α) (i : Nat), (l.flatMap f)[i * width + j]? = l[i]?.bind fun a => (f a)[j]?
  | [], i => by simp
  | a :: l, 0 => by
    have hlt : j < (f a).length := (hf a).symm ▸ hj
    rw [List.flatMap_cons, Nat.zero_mul, Nat.zero_add, List.getElem?_append_left hlt]
    rfl
  | a :: l, i + 1 => by
    have hle : (f a).length ≤ (i + 1) * width + j := by
      rw [hf, Nat.succ_mul]
      omega
    have hskip : (i + 1) * width + j - width = i * width + j := by
      rw [Nat.succ_mul]
      omega
    rw [List.flatMap_cons, List.getElem?_append_right hle, hf, hskip, getElem?_flatMap_of_length hf hj l i]
    rfl

end Lists

namespace Tableau

/-! ## The cells in a list -/

section Cells

variable {F : Type} {L : Layout} {m : Nat}

/-- All cells, line by line, the objective first and every right-hand side at the end of its line. -/
def cells (t : Tableau F L m) : List F := (t.objective :: t.rows.toList.map (·.line)).flatMap Line.cells

/-- The cells of a tableau are those of the objective and of each row, with a right-hand side in each line. -/
theorem length_cells (t : Tableau F L m) : t.cells.length = (m + 1) * (L.columns + 1) := by
  rw [cells, length_flatMap_of_length Line.length_cells, List.length_cons, List.length_map, Vector.length_toList]

/-- The relative cost of column `j` is the `j`-th cell. -/
theorem getElem?_cells_cost (t : Tableau F L m) (j : Fin L.columns) : t.cells[j.val]? = some (t.cost j) := by
  have hj : j.val < L.columns + 1 := Nat.lt_succ_of_lt j.isLt
  have hcell := getElem?_flatMap_of_length Line.length_cells hj (t.objective :: t.rows.toList.map (·.line)) 0
  rw [Nat.zero_mul, Nat.zero_add] at hcell
  exact hcell.trans (t.objective.getElem?_cells j)

/-- The entry of column `j` in row `i` is the `j`-th cell of the line after the first `i + 1`. -/
theorem getElem?_cells_entry (t : Tableau F L m) (i : Fin m) (j : Fin L.columns) :
    t.cells[(i.val + 1) * (L.columns + 1) + j.val]? = some (t.entry i j) := by
  have hj : j.val < L.columns + 1 := Nat.lt_succ_of_lt j.isLt
  have hline : (t.objective :: t.rows.toList.map (·.line))[i.val + 1]? = some (t.row i).line := by
    simp [row, get_eq_getElem]
  rw [cells, getElem?_flatMap_of_length Line.length_cells hj, hline]
  exact (t.row i).line.getElem?_cells j

/-- The basis lists the basic columns of the rows. -/
theorem mem_basis_iff {t : Tableau F L m} {j : Fin L.columns} : j ∈ t.basis ↔ ∃ i, t.basic i = j := by
  rw [basis_eq_map, List.mem_map]
  simp

theorem length_basis (t : Tableau F L m) : t.basis.length = m := by
  rw [basis, List.length_map, Vector.length_toList]

/-- It lists each of them once, if no two rows share one. -/
theorem nodup_basis {t : Tableau F L m} (h : Function.Injective t.basic) : t.basis.Nodup := by
  rw [basis_eq_map]
  exact (List.nodup_finRange m).map h

end Cells

variable {F : Type} [Field F] [LinearOrder F] {L : Layout} {m : Nat}

/-! ## Operations, and what is noted beside them -/

/-- What is noted beside the cells: the number of rows, the set of basic columns, and the costs that were loaded
    last. -/
structure Books (F : Type) (L : Layout) where
  rows : Nat
  columns : Finset (Fin L.columns)
  loaded : Option (Fin L.columns → F)

/-- The books of a tableau before any pivot. -/
def opening (first : Tableau F L L.rows) (loaded : Option (Fin L.columns → F)) : Books F L :=
  ⟨L.rows, first.basis.toFinset, loaded⟩

/-- The tableaux that operations lead to from `first`, with the books after them.  A pivot needs an entry that is not
    zero, and the artificial cost is loaded at the start or not at all; all the rest is free. -/
inductive LeadsTo (first : Tableau F L L.rows) : Books F L → Snapshot F L → Prop
  | start : LeadsTo first (first.opening none) ⟨_, first⟩
  | loadArtificial : LeadsTo first (first.opening (some (artificialCost : Line F L.columns).cell))
      ⟨_, first.loadArtificial⟩
  | loadCost {b : Books F L} {m : Nat} {t : Tableau F L m} (before : LeadsTo first b ⟨m, t⟩)
      (direction : Direction) (cost : Vector F L.decision) :
      LeadsTo first { b with loaded := some (decisionCost direction cost).cell } ⟨m, t.loadCost direction cost⟩
  | pivot {b : Books F L} {m : Nat} {t : Tableau F L m} (before : LeadsTo first b ⟨m, t⟩) (eps : F)
      {j : Fin L.columns} {i : Fin m} (hij : t.entry i j ≠ 0) :
      LeadsTo first { b with columns := insert j (b.columns.erase (t.basic i)) } ⟨m, t.pivot eps j i⟩
  | clearLevel {b : Books F L} {m : Nat} {t : Tableau F L m} (before : LeadsTo first b ⟨m, t⟩) (i : Fin m) :
      LeadsTo first b ⟨m, t.clearLevel i⟩
  | removeRows {b : Books F L} {m : Nat} {t : Tableau F L m} (before : LeadsTo first b ⟨m, t⟩)
      {removed : List (Fin m)} (hnodup : removed.Nodup) :
      LeadsTo first { b with
        rows := b.rows - removed.length
        columns := (t.removeRows removed).basis.toFinset } ⟨_, t.removeRows removed⟩

/-! ## Agreement -/

/-- The books are right about the tableau, which is solved for its basis; and once costs are loaded, basic columns
    have relative cost zero. -/
structure Agrees (b : Books F L) (t : Tableau F L m) : Prop where
  rows_eq : b.rows = m
  mem_columns : ∀ j, j ∈ b.columns ↔ ∃ i, t.basic i = j
  canonical : t.Canonical
  priced : b.loaded.isSome = true → t.Priced

/-- The books are opened with the first basis of the layout. -/
theorem Fresh.agrees_opening {first : Tableau F L L.rows} (h : first.Fresh) :
    Agrees (first.opening none) first where
  rows_eq := rfl
  mem_columns j := List.mem_toFinset.trans mem_basis_iff
  canonical := h.canonical
  priced hloaded := by cases hloaded

/-- Loading the artificial objective is noted down and moves no basic column. -/
theorem Fresh.agrees_loadArtificial {first : Tableau F L L.rows} (h : first.Fresh) :
    Agrees (first.opening (some (artificialCost : Line F L.columns).cell)) first.loadArtificial where
  rows_eq := rfl
  mem_columns := h.agrees_opening.mem_columns
  canonical := h.canonical
  priced _ := h.canonical.priced_loadArtificial h.artificial_iff

namespace Agrees

variable {b : Books F L} {t : Tableau F L m}

/-- Loading the objective of the program is noted down, and prices the basis anew. -/
theorem loadCost (h : Agrees b t) (direction : Direction) (cost : Vector F L.decision) :
    Agrees { b with loaded := some (decisionCost direction cost).cell } (t.loadCost direction cost) where
  rows_eq := h.rows_eq
  mem_columns := h.mem_columns
  canonical := h.canonical
  priced _ := h.canonical.priced_loadCost direction cost

/-- One column is taken out of the set and another one put in, as one row gets another basic column. -/
theorem pivot (h : Agrees b t) (eps : F) {j : Fin L.columns} {i : Fin m} (hij : t.entry i j ≠ 0) :
    Agrees { b with columns := insert j (b.columns.erase (t.basic i)) } (t.pivot eps j i) where
  rows_eq := h.rows_eq
  mem_columns k := by
    rw [← isBasic_iff, isBasic_pivot_iff, Finset.mem_insert, Finset.mem_erase, h.mem_columns]
    refine or_congr_right ?_
    constructor
    · rintro ⟨hne, r, rfl⟩
      exact ⟨r, fun e => hne (congrArg t.basic e), rfl⟩
    · rintro ⟨r, hr, rfl⟩
      exact ⟨fun e => hr (h.canonical.basic_injective e), r, rfl⟩
  canonical := h.canonical.pivot eps hij
  priced hloaded := (h.priced hloaded).pivot h.canonical eps hij

/-- Setting a level to zero is not seen in the books. -/
theorem clearLevel (h : Agrees b t) (i : Fin m) : Agrees b (t.clearLevel i) where
  rows_eq := h.rows_eq
  mem_columns j := by
    simp only [basic_clearLevel]
    exact h.mem_columns j
  canonical := h.canonical.clearLevel i
  priced hloaded k := by
    rw [basic_clearLevel]
    exact h.priced hloaded k

omit [LinearOrder F] in
/-- Removing rows takes them, and their basic columns, out of the books. -/
theorem removeRows (h : Agrees b t) {removed : List (Fin m)} (hnodup : removed.Nodup) :
    Agrees { b with
      rows := b.rows - removed.length
      columns := (t.removeRows removed).basis.toFinset } (t.removeRows removed) where
  rows_eq := by
    have hcount := length_survivors_add hnodup
    have hrows := h.rows_eq
    show b.rows - removed.length = _
    omega
  mem_columns j := List.mem_toFinset.trans mem_basis_iff
  canonical := h.canonical.removeRows removed
  priced hloaded k := by
    rw [basic, row_removeRows]
    exact h.priced hloaded _

end Agrees

/-- The books stay right. -/
theorem LeadsTo.agrees {first : Tableau F L L.rows} (hfirst : first.Fresh) {b : Books F L} {s : Snapshot F L}
    (h : first.LeadsTo b s) : Agrees b s.tableau := by
  induction h with
  | start => exact hfirst.agrees_opening
  | loadArtificial => exact hfirst.agrees_loadArtificial
  | loadCost _ direction cost ih => exact ih.loadCost direction cost
  | pivot _ eps hij ih => exact ih.pivot eps hij
  | clearLevel _ i ih => exact ih.clearLevel i
  | removeRows _ hnodup ih => exact ih.removeRows hnodup

/-! ## The representation -/

omit [LinearOrder F] in
theorem Canonical.nodup_basis {t : Tableau F L m} (h : t.Canonical) : t.basis.Nodup :=
  Tableau.nodup_basis h.basic_injective

/-- **The representation of a tableau.**  Rows are accepted exactly when they fit the layout.  Whatever is done to an
    accepted tableau, every row has a basic column, no two rows have the same one, the set that is noted is that of
    the basic columns, there are as many cells as lines of the noted number of rows have, the basic column of a row
    is the unit column of that row, and once costs were loaded basic columns have relative cost zero. -/
theorem represented {rows : List (List F)} {levels : List F} :
    ((∃ first, ofRows L rows levels = .ok first) ↔ Fits L rows levels) ∧
    ∀ first, ofRows L rows levels = .ok first → ∀ (b : Books F L) (s : Snapshot F L), first.LeadsTo b s →
      s.tableau.basis.length = b.rows ∧ s.tableau.basis.Nodup ∧
      (∀ j, j ∈ b.columns ↔ j ∈ s.tableau.basis) ∧ (∀ j, s.tableau.isBasic j = true ↔ j ∈ s.tableau.basis) ∧
      s.tableau.cells.length = (b.rows + 1) * (L.columns + 1) ∧
      (∀ i k : Fin s.rows, s.tableau.cells[(i.val + 1) * (L.columns + 1) + s.tableau.basic k]? =
        some (if i = k then 1 else 0)) ∧
      (b.loaded.isSome = true → ∀ j ∈ s.tableau.basis, s.tableau.cells[j.val]? = some 0) := by
  constructor
  · constructor
    · rintro ⟨first, hfirst⟩
      exact fault?_eq_none_iff_fits.1 (ofRows_eq_ok_iff.1 hfirst).1
    · intro hfits
      exact ⟨_, ofRows_eq_ok_iff.2 ⟨fault?_eq_none_iff_fits.2 hfits, rfl⟩⟩
  · intro first hfirst b s hs
    have hagrees := hs.agrees (.of_ofRows hfirst)
    refine ⟨?_, hagrees.canonical.nodup_basis, fun j => ?_, fun j => isBasic_iff.trans mem_basis_iff.symm, ?_,
      fun i k => ?_, fun hloaded j hj => ?_⟩
    · rw [length_basis, hagrees.rows_eq]
    · exact (hagrees.mem_columns j).trans mem_basis_iff.symm
    · rw [length_cells, hagrees.rows_eq]
    · rw [getElem?_cells_entry, hagrees.canonical]
    · obtain ⟨i, rfl⟩ := mem_basis_iff.1 hj
      rw [getElem?_cells_cost, hagrees.priced hloaded]

/-- The equation that is stated twice: after the artificial cost is loaded, a pivot replaces the first artificial
    variable, the second row is cleared and removed, and a cost is loaded. -/
theorem represented_repeated :
    ofRows ⟨2, 0, 0, 2⟩ [[1, 1, 1, 0], [1, 1, 0, 1]] [2, 2] = .ok repeated ∧
    ∃ (b : Books ℚ ⟨2, 0, 0, 2⟩) (s : Snapshot ℚ ⟨2, 0, 0, 2⟩), repeated.LeadsTo b s ∧ b.rows = 1 ∧
      b.columns = {⟨0, by decide⟩} ∧ s.tableau.basis = [⟨0, by decide⟩] ∧ s.tableau.cells.length = 10 ∧
      s.tableau.cells[0]? = some 0 ∧
      ∀ i, s.tableau.cells[(i.val + 1) * 5 + s.tableau.basic i]? = some 1 := by
  have hloaded : repeated.LeadsTo _ ⟨_, repeated.loadArtificial⟩ := .loadArtificial
  have hentry : repeated.loadArtificial.entry ⟨0, by decide⟩ ⟨0, by decide⟩ ≠ 0 := by decide +kernel
  have hcleared := (hloaded.pivot (1/8) hentry).clearLevel ⟨1, by decide⟩
  have hs := (hcleared.removeRows (List.nodup_singleton ⟨1, by decide⟩)).loadCost .minimize #v[1, 0]
  obtain ⟨-, -, hcolumns, -, hcells, hunit, hpriced⟩ := represented.2 _ ofRows_repeated _ _ hs
  have hbasis : ((((repeated.loadArtificial.pivot (1/8) ⟨0, by decide⟩ ⟨0, by decide⟩).clearLevel
      ⟨1, by decide⟩).removeRows [⟨1, by decide⟩]).loadCost .minimize #v[1, 0]).basis = [⟨0, by decide⟩] := by
    decide +kernel
  refine ⟨ofRows_repeated, _, _, hs, rfl, ?_, hbasis, hcells, ?_, ?_⟩
  · refine Finset.ext fun j => (hcolumns j).trans ?_
    have hmem := congrArg (j ∈ ·) hbasis
    exact (iff_of_eq hmem).trans (List.mem_singleton.trans Finset.mem_singleton.symm)
  · exact hpriced rfl _ (hbasis ▸ List.mem_singleton_self _)
  · exact fun i => (hunit i i).trans (congrArg some (if_pos rfl))

end Tableau

end Simplex
