/-
  What is left when rows are removed.

  Removing rows gives a new number to every row after them.  The rows that are left have to be found three times over:
  their lines in the list of all cells, where the objective comes first, their basic columns in a list without the
  objective, and the set of these columns, which is made anew.

  1. `val_get_survivors` — the `k`-th row that is left is the `k`-th number that is not removed.
  2. `reindexed` — the numbers of rows among those that are left, and `removeRows_removeRows` — what is removed in two
     steps can be removed in one.
  3. `listed` — whether a number is in an ascending list, found by halving (`listed_iff`).
  4. `Flat` — the parts of a tableau side by side; `Flat.removeRows` filters the lines by their numbers less one and the
     basic columns by a counter, and `flat_removeRows` says that both find the rows that are left.
  5. `rest_of_removeRows` — the rest of the tableau is as it was, and in order.
-/
import Mathlib.Data.List.Sort
import Mathlib.Data.Nat.Nth
import Simplex.Proofs.Contract

namespace Simplex

/-! ## The rows that are left -/

/-- The numbers below `m` with a property, counted: the first, the second and so on. -/
theorem filter_range_eq_map_nth (p : Nat → Prop) [DecidablePred p] :
    ∀ m, (List.range m).filter p = (List.range (Nat.count p m)).map (Nat.nth p)
  | 0 => by simp
  | m + 1 => by
    rw [List.range_succ, List.filter_append, filter_range_eq_map_nth p m, Nat.count_succ]
    by_cases hm : p m
    · simp [hm, List.range_succ, Nat.nth_count hm]
    · simp [hm]

/-- Elements found through their places. -/
theorem map_get_filter_finRange {α : Type} (l : List α) (wanted : α → Bool) :
    ((List.finRange l.length).filter fun k => wanted (l.get k)).map l.get = l.filter wanted := by
  have hplaces : ((List.finRange l.length).map l.get).filter wanted =
      ((List.finRange l.length).filter fun k => wanted (l.get k)).map l.get := List.filter_map
  rw [← hplaces, List.map_get_finRange]

namespace Tableau

variable {F : Type} {L : Layout} {m : Nat}

/-- The rows that stay are those not listed, in their order. -/
theorem map_val_survivors (removed : List (Fin m)) :
    (survivors removed).map Fin.val = (List.range m).filter fun n => n ∉ removed.map Fin.val := by
  rw [survivors, ← List.map_coe_finRange_eq_range, List.filter_map]
  refine congrArg (List.map Fin.val) (List.filter_congr fun i _ => ?_)
  have hmem : i.val ∈ removed.map Fin.val ↔ i ∈ removed := List.mem_map_of_injective Fin.val_injective
  simp only [Function.comp_apply, List.contains_eq_mem, hmem, decide_not]

/-- The `k`-th row that is left is the `k`-th number that is not removed. -/
theorem val_get_survivors (removed : List (Fin m)) (k : Fin (survivors removed).length) :
    ((survivors removed).get k).val = Nat.nth (fun n => n ∉ removed.map Fin.val) k := by
  have hk : ((survivors removed).map Fin.val)[k.val]? = some ((survivors removed).get k).val := by simp
  rw [map_val_survivors, filter_range_eq_map_nth] at hk
  obtain ⟨_, hval⟩ := List.getElem?_eq_some_iff.1 hk
  rw [← hval, List.getElem_map, List.getElem_range]

/-- A column is basic in what is left exactly if it was in a row that is left. -/
theorem isBasic_removeRows_iff (t : Tableau F L m) (removed : List (Fin m)) (j : Fin L.columns) :
    (t.removeRows removed).isBasic j = true ↔ ∃ i, i ∉ removed ∧ t.basic i = j := by
  rw [isBasic_iff]
  constructor
  · rintro ⟨k, rfl⟩
    exact ⟨_, mem_survivors.1 (List.get_mem _ k), (t.basic_removeRows removed k).symm⟩
  · rintro ⟨i, hi, rfl⟩
    obtain ⟨k, rfl⟩ := exists_get_survivors hi
    exact ⟨k, t.basic_removeRows removed k⟩

/-! ## Removing rows in two steps -/

/-- The numbers of the rows `later` among those that are left without the rows `removed`. -/
def reindexed (removed later : List (Fin m)) : List (Fin (survivors removed).length) :=
  (List.finRange _).filter fun k => later.contains ((survivors removed).get k)

theorem pairwise_reindexed (removed later : List (Fin m)) : (reindexed removed later).Pairwise (· < ·) :=
  (List.pairwise_lt_finRange _).filter _

theorem pairwise_survivors (removed : List (Fin m)) : (survivors removed).Pairwise (· < ·) :=
  (List.pairwise_lt_finRange m).filter _

/-- Rows that are left are found under their new numbers. -/
theorem map_get_reindexed {removed later : List (Fin m)} (hlater : later.Pairwise (· < ·))
    (hdisjoint : removed.Disjoint later) : (reindexed removed later).map (survivors removed).get = later := by
  rw [reindexed, map_get_filter_finRange]
  refine List.Pairwise.eq_of_mem_iff (r := (· < ·)) ((pairwise_survivors removed).filter _) hlater fun i => ?_
  rw [List.mem_filter, mem_survivors, List.contains_iff_mem]
  exact and_iff_right_of_imp fun hi hremoved => hdisjoint hremoved hi

/-- What is left after the second step is what is left after removing all at once. -/
theorem map_get_survivors_reindexed (removed later : List (Fin m)) :
    (survivors (reindexed removed later)).map (survivors removed).get =
      survivors ((removed ++ later).mergeSort fun i k => i ≤ k) := by
  have hkept : survivors (reindexed removed later) =
      (List.finRange _).filter fun k => !later.contains ((survivors removed).get k) := by
    refine List.filter_congr fun k _ => ?_
    simp [reindexed]
  rw [hkept, map_get_filter_finRange _ fun i => !later.contains i, survivors, survivors, List.filter_filter]
  refine List.filter_congr fun i _ => ?_
  simp [List.mem_mergeSort, Bool.and_comm]

/-- What is removed in two steps can be removed in one. -/
theorem removeRows_removeRows (t : Tableau F L m) (removed later : List (Fin m)) :
    (⟨_, (t.removeRows removed).removeRows (reindexed removed later)⟩ : Snapshot F L) =
      ⟨_, t.removeRows ((removed ++ later).mergeSort fun i k => i ≤ k)⟩ := by
  refine Snapshot.ext_rows ?_ rfl rfl
  show (survivors (reindexed removed later)).map (t.removeRows removed).row =
    (survivors ((removed ++ later).mergeSort fun i k => i ≤ k)).map t.row
  rw [← map_get_survivors_reindexed, List.map_map]
  exact List.map_congr_left fun k _ => t.row_removeRows removed k

/-- Two ascending lists without a common row are merged to an ascending one. -/
theorem pairwise_lt_mergeSort_append {removed later : List (Fin m)} (hremoved : removed.Pairwise (· < ·))
    (hlater : later.Pairwise (· < ·)) (hdisjoint : removed.Disjoint later) :
    ((removed ++ later).mergeSort fun i k => i ≤ k).Pairwise (· < ·) := by
  apply pairwise_lt_mergeSort
  exact hremoved.nodup.append hlater.nodup hdisjoint

end Tableau

/-! ## Numbers looked up by halving -/

/-- Is `x` in the list, which is in ascending order?  The middle is looked at, and then one half. -/
def listed (x : Nat) (l : List Nat) : Bool :=
  match h : l.drop (l.length / 2) with
  | [] => false
  | middle :: upper =>
    if x = middle then true
    else if x < middle then listed x (l.take (l.length / 2))
    else listed x upper
termination_by l.length
decreasing_by
  all_goals
    have hlength := congrArg List.length h
    simp only [List.length_drop, List.length_cons, List.length_take] at hlength ⊢
    omega

/-- In an ascending list, what is not in the middle is in the half that its size points to. -/
theorem mem_half_iff {x middle : Nat} {lower upper : List Nat}
    (h : (lower ++ middle :: upper).Pairwise (· < ·)) (hne : x ≠ middle) :
    x ∈ lower ++ middle :: upper ↔ if x < middle then x ∈ lower else x ∈ upper := by
  obtain ⟨-, hupper, hlower⟩ := List.pairwise_append.1 h
  have hbelow : x ∈ lower → x < middle := fun hx => hlower x hx middle (List.mem_cons_self ..)
  have habove : x ∈ upper → middle < x := fun hx => (List.pairwise_cons.1 hupper).1 x hx
  simp only [List.mem_append, List.mem_cons, hne, false_or]
  split
  · rename_i hlt
    exact or_iff_left fun hx => Nat.lt_asymm hlt (habove hx)
  · rename_i hge
    exact or_iff_right fun hx => hge (hbelow hx)

/-- The search finds exactly the members of an ascending list. -/
theorem listed_iff {x : Nat} {l : List Nat} (hl : l.Pairwise (· < ·)) : listed x l = true ↔ x ∈ l := by
  fun_induction listed x l with
  | case1 l h =>
    have hlength : l.length ≤ l.length / 2 := List.drop_eq_nil_iff.1 h
    have hnil : l = [] := List.eq_nil_of_length_eq_zero (by omega)
    simp [hnil]
  | case2 l upper h =>
    have hmem : x ∈ l.drop (l.length / 2) := h ▸ List.mem_cons_self ..
    exact iff_of_true rfl (List.mem_of_mem_drop hmem)
  | case3 l middle upper h hne hlt ih =>
    -- it can only be before the middle
    have hsplit : l.take (l.length / 2) ++ middle :: upper = l := h ▸ List.take_append_drop ..
    have hhalf := mem_half_iff (hsplit.symm ▸ hl) hne
    rw [hsplit, if_pos hlt] at hhalf
    rw [hhalf]
    exact ih hl.take
  | case4 l middle upper h hne hge ih =>
    -- it can only be after the middle
    have hsplit : l.take (l.length / 2) ++ middle :: upper = l := h ▸ List.take_append_drop ..
    have hhalf := mem_half_iff (hsplit.symm ▸ hl) hne
    rw [hsplit, if_neg hge] at hhalf
    rw [hhalf]
    exact ih (h ▸ hl.drop).tail

/-! ## Lines in a long list, and elements by their numbers -/

section Lists

variable {α β : Type}

/-- A list cut into lines of `width + 1` elements. -/
def lines (width : Nat) : List α → List (List α)
  | [] => []
  | a :: l => (a :: l.take width) :: lines width (l.drop width)
termination_by l => l.length
decreasing_by
  simp only [List.length_drop, List.length_cons]
  omega

/-- Lines that were put one after the other are found again. -/
theorem lines_flatMap {f : α → List β} {width : Nat} (hf : ∀ a, (f a).length = width + 1) :
    ∀ l : List α, lines width (l.flatMap f) = l.map f
  | [] => by rw [List.flatMap_nil, lines, List.map_nil]
  | a :: l => by
    obtain ⟨b, line, hline⟩ := List.exists_cons_of_length_eq_add_one (hf a)
    have hwidth : line.length = width := by
      have hlength := hf a
      rw [hline, List.length_cons] at hlength
      omega
    rw [List.flatMap_cons, hline, List.cons_append, lines, List.take_left' hwidth, List.drop_left' hwidth,
      lines_flatMap hf l, List.map_cons, hline]

/-- The elements whose numbers are not in the list, by a counter that starts at `n` and goes up at every element. -/
def unlisted (numbers : List Nat) : Nat → List α → List α
  | _, [] => []
  | n, a :: l => if listed n numbers then unlisted numbers (n + 1) l else a :: unlisted numbers (n + 1) l

/-- Going through the elements with their numbers is filtering by them. -/
theorem unlisted_eq_filter (numbers : List Nat) : ∀ (n : Nat) (l : List α),
    unlisted numbers n l = ((l.zipIdx n).filter fun a => !listed a.2 numbers).map Prod.fst
  | _, [] => rfl
  | n, a :: l => by
    rw [unlisted, List.zipIdx_cons, unlisted_eq_filter numbers (n + 1) l]
    cases hn : listed n numbers with
    | true => simp [hn]
    | false => simp [hn]

/-- The first element stays, and the others are known by their numbers less one. -/
theorem map_fst_filter_zipIdx_cons (numbers : List Nat) (a : α) (l : List α) :
    ((a :: l).zipIdx.filter fun b => b.2 == 0 || !listed (b.2 - 1) numbers).map Prod.fst =
      a :: (l.zipIdx.filter fun b => !listed b.2 numbers).map Prod.fst := by
  rw [List.zipIdx_cons, List.zipIdx_succ, List.filter_cons_of_pos rfl, List.filter_map, List.map_cons, List.map_map]
  rfl

theorem zipIdx_map_finRange {m : Nat} (f : Fin m → α) :
    ((List.finRange m).map f).zipIdx = (List.finRange m).map fun i => (f i, i.val) := by
  refine List.ext_getElem (by simp) ?_
  intro k hk _
  simp

end Lists

/-! ## The parts of a tableau side by side -/

/-- A tableau as it can be kept: the number of its rows, all its cells in one list, which columns may enter the basis,
    the basic columns row by row, and the set of them. -/
@[ext]
structure Flat (F : Type) (L : Layout) where
  rows : Nat
  cells : List F
  eligible : List Bool
  basis : List (Fin L.columns)
  columns : Finset (Fin L.columns)

/-- Remove the rows of the given numbers from all parts.  Among the lines of cells the objective has number zero, and row
    `i` the number `i + 1`. -/
def Flat.removeRows {F : Type} {L : Layout} (s : Flat F L) (numbers : List Nat) : Flat F L where
  rows := s.rows - numbers.length
  cells := ((lines L.columns s.cells).zipIdx.filter fun a => a.2 == 0 || !listed (a.2 - 1) numbers).flatMap Prod.fst
  eligible := s.eligible
  basis := unlisted numbers 0 s.basis
  columns := (unlisted numbers 0 s.basis).toFinset

namespace Tableau

variable {F : Type} {L : Layout} {m : Nat}

/-- The parts of a tableau. -/
def flat (t : Tableau F L m) : Flat F L := ⟨m, t.cells, t.eligible.toList, t.basis, t.basis.toFinset⟩

/-- Elements whose numbers are not in the list are those of the rows that are left. -/
theorem map_fst_filter_eq_survivors {α : Type} {removed : List (Fin m)} (hremoved : removed.Pairwise (· < ·))
    (f : Fin m → α) :
    (((List.finRange m).map f).zipIdx.filter fun a => !listed a.2 (removed.map Fin.val)).map Prod.fst =
      (survivors removed).map f := by
  have hlisted : ∀ i : Fin m, listed i.val (removed.map Fin.val) = removed.contains i := by
    intro i
    rw [Bool.eq_iff_iff, listed_iff (hremoved.map _ fun _ _ h => h), List.contains_iff_mem]
    exact List.mem_map_of_injective Fin.val_injective
  rw [zipIdx_map_finRange, List.filter_map, List.map_map]
  simp only [Function.comp_def, hlisted]
  rfl

/-- Cut into lines, the cells of a tableau are the objective and the rows. -/
theorem lines_cells (t : Tableau F L m) :
    lines L.columns t.cells = t.objective.cells :: (List.finRange m).map fun i => (t.row i).line.cells := by
  rw [cells, lines_flatMap Line.length_cells, List.map_cons, toList_rows, List.map_map, List.map_map]
  rfl

/-- After a removal they are the objective and the rows that stay. -/
theorem cells_removeRows (t : Tableau F L m) (removed : List (Fin m)) : (t.removeRows removed).cells =
    (t.objective.cells :: (survivors removed).map fun i => (t.row i).line.cells).flatten := by
  have hrows : (t.removeRows removed).rows.toList = (survivors removed).map t.row := rfl
  rw [cells, hrows, List.flatMap_def, List.map_cons, List.map_map, List.map_map]
  rfl

/-- Lines and basic columns are filtered in different ways, and both filters find the rows that are left. -/
theorem flat_removeRows (t : Tableau F L m) {removed : List (Fin m)} (hremoved : removed.Pairwise (· < ·)) :
    (t.removeRows removed).flat = t.flat.removeRows (removed.map Fin.val) := by
  have hrows : (survivors removed).length = m - (removed.map Fin.val).length := by
    have hcount := length_survivors_add hremoved.nodup
    rw [List.length_map]
    omega
  have hcells : (t.removeRows removed).cells = (t.flat.removeRows (removed.map Fin.val)).cells := by
    simp only [Flat.removeRows, flat]
    -- line zero is the objective, and line `i + 1` is looked up under the number `i` of its row
    rw [List.flatMap_def, lines_cells, map_fst_filter_zipIdx_cons, map_fst_filter_eq_survivors hremoved,
      cells_removeRows]
  have hbasis : (t.removeRows removed).basis = unlisted (removed.map Fin.val) 0 t.basis := by
    rw [basis_removeRows, unlisted_eq_filter, basis_eq_map, map_fst_filter_eq_survivors hremoved]
  exact Flat.ext hrows hcells rfl hbasis (congrArg List.toFinset hbasis)

/-! ## The rest of the tableau -/

/-- **Removing rows keeps the rest intact and in order.**  As many rows go as are in the list, and the `k`-th row of what
    is left, with its right-hand side and basic column, is the `k`-th row that is not in the list.  The objective and the
    eligible columns stay, and a column is basic exactly if it was in a row that is left.  This is what becomes of the
    parts of the tableau when each of them is filtered on its own.  Other rows that are removed afterwards, under the
    numbers they then have, can as well be removed in the same step. -/
theorem rest_of_removeRows (t : Tableau F L m) {removed : List (Fin m)} (hremoved : removed.Pairwise (· < ·)) :
    (survivors removed).length + removed.length = m ∧
    (∀ k, ∃ i : Fin m, i.val = Nat.nth (fun n => n ∉ removed.map Fin.val) k.val ∧
      (t.removeRows removed).row k = t.row i) ∧
    (t.removeRows removed).objective = t.objective ∧ (t.removeRows removed).eligible = t.eligible ∧
    (∀ j, (t.removeRows removed).isBasic j = true ↔ ∃ i, i ∉ removed ∧ t.basic i = j) ∧
    (t.removeRows removed).flat = t.flat.removeRows (removed.map Fin.val) ∧
    ∀ later : List (Fin m), later.Pairwise (· < ·) → removed.Disjoint later →
      (reindexed removed later).Pairwise (· < ·) ∧ (reindexed removed later).map (survivors removed).get = later ∧
      ((removed ++ later).mergeSort fun i k => i ≤ k).Pairwise (· < ·) ∧
      (⟨_, (t.removeRows removed).removeRows (reindexed removed later)⟩ : Snapshot F L) =
        ⟨_, t.removeRows ((removed ++ later).mergeSort fun i k => i ≤ k)⟩ := by
  refine ⟨length_survivors_add hremoved.nodup, fun k => ?_, rfl, rfl, t.isBasic_removeRows_iff removed,
    t.flat_removeRows hremoved, fun later hlater hdisjoint => ?_⟩
  · exact ⟨_, val_get_survivors removed k, t.row_removeRows removed k⟩
  · exact ⟨pairwise_reindexed removed later, map_get_reindexed hlater hdisjoint,
      pairwise_lt_mergeSort_append hremoved hlater hdisjoint, t.removeRows_removeRows removed later⟩

/-- Four equations. -/
def fourfold : Tableau ℚ ⟨1, 0, 0, 4⟩ 4 :=
  fill ⟨1, 0, 0, 4⟩ [[1, 1, 0, 0, 0], [2, 0, 1, 0, 0], [3, 0, 0, 1, 0], [4, 0, 0, 0, 1]] [5, 6, 7, 8]

/-- From `fourfold` the second row is removed, and then the first and the last, which is the third by then.  The third
    row is left, as if all had been removed at once. -/
theorem rest_of_removeRows_fourfold :
    ([1] : List (Fin 4)).Pairwise (· < ·) ∧ ([0, 3] : List (Fin 4)).Pairwise (· < ·) ∧
    ([1] : List (Fin 4)).Disjoint [0, 3] ∧ (survivors ([1] : List (Fin 4))).length = 3 ∧
    (reindexed ([1] : List (Fin 4)) [0, 3]).map Fin.val = [0, 2] ∧
    (fourfold.removeRows [1]).flat = fourfold.flat.removeRows [1] ∧
    (⟨_, (fourfold.removeRows [1]).removeRows (reindexed [1] [0, 3])⟩ : Snapshot ℚ ⟨1, 0, 0, 4⟩) =
      ⟨_, fourfold.removeRows [0, 1, 3]⟩ ∧
    (fourfold.removeRows [0, 1, 3]).level ⟨0, by decide⟩ = 7 := by
  have hremoved : ([1] : List (Fin 4)).Pairwise (· < ·) := by decide
  have hlater : ([0, 3] : List (Fin 4)).Pairwise (· < ·) := by decide
  have hdisjoint : ([1] : List (Fin 4)).Disjoint [0, 3] := by simp
  have hunion : (([1] ++ [0, 3] : List (Fin 4)).mergeSort fun i k => i ≤ k) = [0, 1, 3] := by
    simp [List.mergeSort]
  obtain ⟨hcount, -, -, -, -, hflat, hsteps⟩ := rest_of_removeRows fourfold hremoved
  obtain ⟨-, -, -, hsame⟩ := hsteps [0, 3] hlater hdisjoint
  rw [hunion] at hsame
  exact ⟨hremoved, hlater, hdisjoint, Nat.succ.inj hcount, by decide, hflat, hsame, by decide +kernel⟩

end Tableau

end Simplex
