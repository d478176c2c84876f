/-
  Every operation of a run is within its bounds.

  The operations on a tableau expect something of their callers: rows and columns in range, a column outside the basis
  and a large enough entry to pivot on, rows to be removed in order, artificial variables basic in their own rows.  A
  run keeps books from which its next operations are taken, and these books are made at one time and used at another.
  Here a watcher goes along with a run and holds every event against the tableau as it is at that time.

  1. `Watcher` — a state beside a run, and which events are allowed in it; `Journal.Meets` — all events of a run are,
     and a result comes with a state that is known.  One rule per way of composing runs.
  2. `Standing` — the tableau as it is, the tableau from which the list of artificial variables was made, the counts of
     pivots, and the buffer for the solution; `Standing.Expects` — what is expected of every event.
  3. `Standing.UpToDate` — the buffer holds the basic solution of the tableau as it is.  It is expected whenever a pivot
     is made or a phase ends, but not while artificial variables are exchanged.
  4. `meets_descend` … `meets_runPhases` — one lemma per part of a run.  A descent is taken pivot by pivot, and the list
     of artificial variables row by row.
  5. `solve_within_contract` — the whole run, from any accepted tableau and with any numbers.
-/
import Simplex.Proofs.Representation

namespace Simplex

/-! ## Watching a run -/

/-- A state beside a run: what an event makes of it, and which events are allowed in it. -/
structure Watcher (ω σ : Type) where
  next : σ → ω → σ
  Allows : σ → ω → Prop

namespace Watcher

variable {ω σ : Type} (W : Watcher ω σ)

/-- The state after some events. -/
def after (s : σ) (events : List ω) : σ := events.foldl W.next s

/-- Every event is allowed when it comes. -/
def Accepts : σ → List ω → Prop
  | _, [] => True
  | s, e :: rest => W.Allows s e ∧ Accepts (W.next s e) rest

/-- Watching two pieces of a run is watching one and then the other. -/
theorem after_append (s : σ) (l l' : List ω) : W.after s (l ++ l') = W.after (W.after s l) l' :=
  List.foldl_append

/-- A run is accepted if its first piece is, and the second one is from where the first one led. -/
theorem accepts_append : ∀ {s : σ} {l l' : List ω},
    W.Accepts s (l ++ l') ↔ W.Accepts s l ∧ W.Accepts (W.after s l) l'
  | s, [], l' => ⟨fun h => ⟨trivial, h⟩, And.right⟩
  | s, e :: l, l' => by
    show W.Allows s e ∧ W.Accepts (W.next s e) (l ++ l') ↔ (W.Allows s e ∧ W.Accepts (W.next s e) l) ∧ _
    rw [accepts_append, and_assoc]
    rfl

/-- Of some accepted events, each is allowed in the state that the events before it lead to. -/
theorem Accepts.allows {W : Watcher ω σ} {s : σ} {before rest : List ω} {e : ω}
    (h : W.Accepts s (before ++ e :: rest)) : W.Allows (W.after s before) e :=
  (W.accepts_append.1 h).2.1

end Watcher

namespace Journal

variable {ω σ ε α β : Type} {W : Watcher ω σ} {s : σ} {post : α → σ → Prop} {post' : β → σ → Prop}

/-- All events of the run are allowed, and if it ends well, its result and the state after it are as asked for. -/
def Meets (W : Watcher ω σ) (s : σ) (post : α → σ → Prop) (run : Journal ω ε α) : Prop :=
  W.Accepts s run.events ∧ ∀ a, run.result = .ok a → post a (W.after s run.events)

namespace Meets

/-- Nothing happens, so the state must be right already. -/
theorem pure {a : α} (h : post a s) : (Pure.pure a : Journal ω ε α).Meets W s post := by
  refine ⟨trivial, ?_⟩
  rintro _ ⟨⟩
  exact h

theorem fail (e : ε) : (Journal.fail e : Journal ω ε α).Meets W s post :=
  ⟨trivial, fun _ h => (nomatch h)⟩

/-- A check notes nothing, so what it lets through is said of the state before it. -/
theorem ofExcept {x : Except ε α} (h : ∀ a, x = .ok a → post a s) :
    (Journal.ofExcept x : Journal ω ε α).Meets W s post :=
  ⟨trivial, h⟩

/-- What a run leaves behind may be said less exactly. -/
theorem mono {run : Journal ω ε α} {weaker : α → σ → Prop} (h : run.Meets W s post)
    (hpost : ∀ a s', post a s' → weaker a s') : run.Meets W s weaker :=
  ⟨h.1, fun a ha => hpost a _ (h.2 a ha)⟩

/-- A caller uses what the first part leaves behind, never how it got there. -/
theorem bind {run : Journal ω ε α} (h : run.Meets W s post) {f : α → Journal ω ε β}
    (hf : ∀ a s', run.result = .ok a → post a s' → (f a).Meets W s' post') : (run >>= f).Meets W s post' := by
  obtain ⟨haccepts, hpost⟩ := h
  cases hr : run.result with
  | error e =>
    rw [bind_of_error hr]
    exact ⟨haccepts, fun _ hb => (nomatch hb)⟩
  | ok a =>
    obtain ⟨haccepts', hpost'⟩ := hf a _ hr (hpost a hr)
    rw [bind_of_ok hr]
    refine ⟨W.accepts_append.2 ⟨haccepts, haccepts'⟩, fun b hb => ?_⟩
    show post' b (W.after s (run.events ++ (f a).events))
    rw [W.after_append]
    exact hpost' b hb

/-- Events that are noted first have to be accepted from where the run stands. -/
theorem notes_bind {events : List ω} (he : W.Accepts s events) {f : Unit → Journal ω ε β}
    (hf : (f ()).Meets W (W.after s events) post') : (notes events >>= f).Meets W s post' := by
  have hnotes : (notes events : Journal ω ε Unit).Meets W s fun _ s' => s' = W.after s events :=
    ⟨he, fun _ _ => rfl⟩
  refine hnotes.bind ?_
  rintro _ _ _ rfl
  exact hf

/-- A single event has to be allowed there. -/
theorem note_bind {e : ω} (he : W.Allows s e) {f : Unit → Journal ω ε β}
    (hf : (f ()).Meets W (W.next s e) post') : (note e >>= f).Meets W s post' := by
  have haccepts : W.Accepts s [e] := ⟨he, trivial⟩
  exact notes_bind haccepts hf

end Meets

end Journal

/-- At the start no column is basic in two rows. -/
theorem Tableau.basic_injective_ofRows {F : Type} [Scalar F] {L : Layout} {rows : List (List F)} {levels : List F}
    {t : Tableau F L L.rows} (h : ofRows L rows levels = .ok t) : Function.Injective t.basic := by
  obtain ⟨-, rfl⟩ := ofRows_eq_ok_iff.1 h
  intro i k hik
  rw [basic_fill, basic_fill] at hik
  exact L.basisColumn_injective hik

/-! ## Rows that are removed by their numbers -/

section Removal

variable {F : Type} {L : Layout} {m : Nat}

/-- The same rows, objective and eligible columns make the same snapshot. -/
theorem Snapshot.ext_rows {a b : Snapshot F L} (hrows : a.tableau.rows.toList = b.tableau.rows.toList)
    (hobjective : a.tableau.objective = b.tableau.objective) (heligible : a.tableau.eligible = b.tableau.eligible) :
    a = b := by
  obtain ⟨m, ⟨⟨⟨rows⟩, hm⟩, objective, eligible⟩⟩ := a
  obtain ⟨n, ⟨⟨⟨rows'⟩, hn⟩, objective', eligible'⟩⟩ := b
  obtain rfl : rows = rows' := hrows
  obtain rfl : objective = objective' := hobjective
  obtain rfl : eligible = eligible' := heligible
  cases hm
  cases hn
  rfl

/-- The tableau without the rows of the given numbers. -/
def Snapshot.without (s : Snapshot F L) (rows : List Nat) : Snapshot F L :=
  ⟨_, s.tableau.removeRows ((List.finRange s.rows).filter fun i => rows.contains i.val)⟩

namespace Tableau

/-- Rows named by their numbers are the rows that are removed. -/
theorem without_map_val (t : Tableau F L m) (removed : List (Fin m)) :
    (⟨m, t⟩ : Snapshot F L).without (removed.map fun i => i.val) = ⟨_, t.removeRows removed⟩ := by
  refine Snapshot.ext_rows ?_ rfl rfl
  show ((survivors _).map t.row) = (survivors removed).map t.row
  refine congrArg (List.map t.row) (List.filter_congr fun i _ => ?_)
  have hmem : (∃ a ∈ removed, a.val = i.val) ↔ i ∈ removed := by
    constructor
    · rintro ⟨a, ha, hai⟩
      rw [← Fin.ext hai]
      exact ha
    · intro hi
      exact ⟨i, hi, rfl⟩
  simpa [List.contains_eq_mem] using hmem

/-- Removing no row changes nothing but the way the rows are counted. -/
theorem removeRows_nil (t : Tableau F L m) : (⟨_, t.removeRows []⟩ : Snapshot F L) = ⟨m, t⟩ := by
  refine Snapshot.ext_rows ?_ rfl rfl
  show (survivors []).map t.row = t.rows.toList
  rw [toList_rows]
  simp [survivors]

end Tableau

end Removal

/-! ## Where a run stands -/

/-- What has come of a run so far. -/
structure Standing (F : Type) (L : Layout) where
  /-- The tableau as it is. -/
  current : Snapshot F L
  /-- The tableau after the last load or pivot of a phase.  The artificial basic variables are listed from it. -/
  listed : Snapshot F L
  /-- The pivots so far, exchanges at level zero included. -/
  pivots : Nat
  /-- The pivots when the first phase ended. -/
  phaseOne : Nat
  /-- What the buffer for the solution holds. -/
  buffer : Vector F L.columns

namespace Standing

variable {F : Type} {L : Layout} {m : Nat} [Scalar F]

/-- Before any event. -/
def start (t : Tableau F L m) (buffer : Vector F L.columns) : Standing F L := ⟨⟨m, t⟩, ⟨m, t⟩, 0, 0, buffer⟩

/-- What an event makes of it. -/
def advance (s : Standing F L) : Event F L → Standing F L
  | .artificialLoaded reached | .costLoaded _ reached => { s with current := reached, listed := reached }
  | .written values => { s with buffer := values }
  | .pivoted _ _ _ _ _ _ reached => { s with current := reached, listed := reached, pivots := s.pivots + 1 }
  | .replaced _ _ _ reached => { s with current := reached, pivots := s.pivots + 1 }
  | .removing rows => { s with current := s.current.without rows }
  | .infeasible _ | .feasible _ => { s with phaseOne := s.pivots }
  | _ => s

/-- The buffer holds the basic solution of the tableau as it is. -/
def UpToDate (s : Standing F L) : Prop := s.buffer = s.current.tableau.basicSolution

/-- No column is basic in two rows, every row has a basic column, all of them have a place in the buffer, and there are
    as many cells as the lines of all rows and the objective have. -/
structure InOrder (s : Standing F L) : Prop where
  nodup : s.current.tableau.basis.Nodup
  length_basis : s.current.tableau.basis.length = s.current.rows
  lt_size : ∀ j ∈ s.current.tableau.basis, j.val < s.buffer.toList.length
  length_cells : s.current.tableau.cells.length = (s.current.rows + 1) * (L.columns + 1)

end Standing

/-- Column `j` can be brought into the basis in the given row, where it replaces `leaving`: the row is in range, the
    column is outside the basis, and the entry is larger in magnitude than the tolerance. -/
def Snapshot.Brings {F : Type} {L : Layout} [Scalar F] (s : Snapshot F L) (eps : F) (j : Fin L.columns) (row : Nat)
    (leaving : Fin L.columns) (reached : Snapshot F L) : Prop :=
  ∃ i : Fin s.rows, i.val = row ∧ s.tableau.basic i = leaving ∧ s.tableau.isBasic j = false ∧
    Scalar.significant eps (s.tableau.entry i j) = true ∧ reached = ⟨s.rows, s.tableau.pivot eps j i⟩

/-- What is expected of an event.  Every change of the tableau is an operation on the tableau as it is, within the
    bounds of that operation, and every count that is reported is the one that is kept. -/
def Standing.Expects {F : Type} {L : Layout} [Scalar F] (eps : F) (direction : Direction) (cost : List F)
    (s : Standing F L) : Event F L → Prop
  | .artificialLoaded reached =>
    -- rows and columns are taken from the layout, so the tableau must still have them
    (∀ j ∈ L.artificialColumns, j < L.columns ∧ L.isArtificial j = true) ∧
    (∀ i ∈ L.artificialRows, ∃ r : Fin s.current.rows, r.val = i ∧
      (s.current.tableau.basic r).val = L.initialColumn i ∧ L.isArtificial (s.current.tableau.basic r) = true) ∧
    reached = ⟨_, s.current.tableau.loadArtificial⟩
  | .costLoaded _ reached =>
    (∀ j ∈ L.artificialColumns, j < L.columns ∧ L.isArtificial j = true) ∧ cost.length ≤ L.columns ∧
    ∃ c : Vector F L.decision, c.toList = cost ∧ reached = ⟨_, s.current.tableau.loadCost direction c⟩
  | .written values => values = s.current.tableau.writeSolution s.buffer
  | .pivoted _ number j row leaving _ reached =>
    number = s.pivots + 1 ∧ s.UpToDate ∧ s.current.Brings eps j row leaving reached
  | .replaced j row leaving reached =>
    -- row and column were listed before any of the exchanges
    (∃ i ∈ s.listed.tableau.artificialBasics, i.val = row ∧ s.listed.tableau.basic i = leaving) ∧
    ∃ i : Fin s.current.rows, i.val = row ∧
      Snapshot.Brings ⟨_, s.current.tableau.clearLevel i⟩ eps j row leaving reached
  | .removing rows => rows.Pairwise (· < ·) ∧ ∀ row ∈ rows, row < s.current.rows
  | .stopped _ n => n = s.pivots
  | .feasible n => n = s.pivots ∧ s.UpToDate
  | .done n => n = s.pivots ∧ s.phaseOne ≤ n ∧ s.UpToDate
  | .unlimited .. | .infeasible _ | .optimal _ | .unbounded _ => s.UpToDate
  | _ => True

/-- The watcher that holds every event against the tableau as it is. -/
def contract {F : Type} {L : Layout} [Scalar F] (eps : F) (direction : Direction) (cost : List F) :
    Watcher (Event F L) (Standing F L) where
  next := Standing.advance
  Allows s e := s.InOrder ∧ s.Expects eps direction cost e

/-! ## The two loops -/

namespace Tableau

variable {F E : Type} {L : Layout} {m : Nat} [Scalar F] {eps : F} {direction : Direction} {cost : List F}

omit [Scalar F] in
/-- A tableau whose basic columns are distinct is in order, whatever else was noted down. -/
theorem inOrder {t : Tableau F L m} (h : Function.Injective t.basic) (listed : Snapshot F L) (pivots phaseOne : Nat)
    (buffer : Vector F L.columns) : Standing.InOrder ⟨⟨m, t⟩, listed, pivots, phaseOne, buffer⟩ where
  nodup := nodup_basis h
  length_basis := t.length_basis
  lt_size j _ := by
    rw [Vector.length_toList]
    exact j.isLt
  length_cells := t.length_cells

/-- Where a run stands after a load or a pivot of a phase. -/
def standing (t : Tableau F L m) (pivots phaseOne : Nat) : Standing F L :=
  ⟨⟨m, t⟩, ⟨m, t⟩, pivots, phaseOne, t.basicSolution⟩

/-- A change of mode is no operation. -/
theorem accepts_switch (eps : F) (direction : Direction) (cost : List F) {s : Standing F L} (h : s.InOrder)
    (before after : Strategy) : (contract eps direction cost).Accepts s (before.switch after) ∧
      (contract eps direction cost).after s (before.switch after) = s := by
  obtain hnil | ⟨streak, hcareful⟩ | hgreedy := Strategy.switch_cases (F := F) (L := L) before after
  · rw [hnil]
    exact ⟨trivial, rfl⟩
  · rw [hcareful]
    exact ⟨⟨⟨h, trivial⟩, trivial⟩, rfl⟩
  · rw [hgreedy]
    exact ⟨⟨⟨h, trivial⟩, trivial⟩, rfl⟩

/-- A chosen pivot is made in the tableau at hand, with a column outside the basis and a significant entry. -/
theorem Chooses.brings {t : Tableau F L m} {mode : Mode} {j : Fin L.columns} {i : Fin m}
    (h : t.Chooses eps mode j i) : (⟨m, t⟩ : Snapshot F L).Brings eps j i (t.basic i) ⟨m, t.pivot eps j i⟩ := by
  refine ⟨i, rfl, rfl, h.not_basic, ?_, rfl⟩
  rw [Scalar.significant, Bool.or_eq_true]
  exact Or.inl (decide_eq_true h.lt_entry)

/-- A replacement is brought in after the level of its row is cleared. -/
theorem brings_exchange {t : Tableau F L m} {j : Fin L.columns} {i : Fin m} (h : t.replacement? eps i = some j) :
    (⟨m, t.clearLevel i⟩ : Snapshot F L).Brings eps j i (t.basic i) ⟨m, (t.clearLevel i).pivot eps j i⟩ := by
  refine ⟨i, rfl, t.basic_clearLevel i i, ?_, ?_, rfl⟩
  · exact (t.isBasic_clearLevel i j).trans (not_basic_of_replacement? h)
  · show Scalar.significant eps ((t.clearLevel i).entry i j) = true
    rw [entry_clearLevel]
    exact (replacement?_eq_some h).2

/-- In a descent the solution is written down before anything else, so whatever is done then is done with a buffer that
    is up to date. -/
theorem meets_descend (phase : Phase) {phaseOne : Nat} (left pivots : Nat) (s : Strategy)
    (x buffer : Vector F L.columns) (t : Tableau F L m) (h : Function.Injective t.basic) :
    (t.descend (E := E) phase eps left pivots s x).Meets (contract eps direction cost)
      ⟨⟨m, t⟩, ⟨m, t⟩, pivots, phaseOne, buffer⟩ fun d standing =>
        standing = d.tableau.standing d.pivots phaseOne ∧ pivots ≤ d.pivots := by
  have horder := inOrder h ⟨m, t⟩ pivots phaseOne
  rw [descend]
  refine .note_bind ?_ ?_
  · exact ⟨horder buffer, t.writeSolution_congr x buffer⟩
  have hwritten : (contract eps direction cost).next ⟨⟨m, t⟩, ⟨m, t⟩, pivots, phaseOne, buffer⟩
      (.written (t.writeSolution x)) = t.standing pivots phaseOne := by
    rw [writeSolution_eq h]
    rfl
  rw [hwritten]
  rcases t.choice_cases eps s.mode with hj | ⟨j, hj, hi⟩ | ⟨j, i, hc⟩
  · rw [hj]
    exact .pure ⟨rfl, le_refl _⟩
  · rw [hj]
    simp only [hi]
    refine .note_bind ?_ (.pure ⟨rfl, le_refl _⟩)
    exact ⟨horder _, rfl⟩
  · rw [hc.entering]
    simp only [hc.leaving]
    cases left with
    | zero =>
      refine .note_bind ?_ (.fail _)
      exact ⟨horder _, rfl⟩
    | succ left =>
      obtain ⟨hswitch, hstays⟩ := accepts_switch eps direction cost (horder t.basicSolution) s
        (s.afterPivot (isDegenerate eps (t.ratio j i)))
      refine .notes_bind hswitch ?_
      show Journal.Meets _ ((contract eps direction cost).after (t.standing pivots phaseOne) _) _ _
      rw [standing, hstays]
      refine .note_bind ?_ ?_
      · exact ⟨horder _, rfl, rfl, hc.brings⟩
      · have hpivot := basic_injective_pivot h eps i hc.not_basic
        refine (meets_descend phase left (pivots + 1) _ _ t.basicSolution _ hpivot).mono ?_
        rintro d _ ⟨rfl, hle⟩
        exact ⟨rfl, by omega⟩

/-- Driving out works on a list that was made before: the rows it has still to go through have the basic columns they
    had then. -/
theorem meets_driveOut {listed : Tableau F L m} {limit phaseOne : Nat} {buffer : Vector F L.columns} :
    ∀ (is : List (Fin m)) (pivots : Nat) (t : Tableau F L m), Function.Injective t.basic → is.Nodup →
      (∀ i ∈ is, i ∈ listed.artificialBasics ∧ t.basic i = listed.basic i) →
      (driveOut (E := E) eps limit is pivots t).Meets (contract eps direction cost)
        ⟨⟨m, t⟩, ⟨m, listed⟩, pivots, phaseOne, buffer⟩ fun out standing =>
          standing = ⟨⟨m, out.tableau⟩, ⟨m, listed⟩, out.pivots, phaseOne, buffer⟩
  | [], pivots, t, h, _, _ => .pure rfl
  | i :: rest, pivots, t, h, hnodup, hlisted => by
    have horder := inOrder h ⟨m, listed⟩ pivots phaseOne buffer
    obtain ⟨hi, hrest⟩ := List.nodup_cons.1 hnodup
    have hlisted' : ∀ k ∈ rest, k ∈ listed.artificialBasics ∧ t.basic k = listed.basic k :=
      fun k hk => hlisted k (List.mem_cons_of_mem _ hk)
    rw [driveOut]
    cases hrep : t.replacement? eps i with
    | none =>
      refine (meets_driveOut rest pivots t h hrest hlisted').bind ?_
      rintro out _ - rfl
      exact .pure rfl
    | some j =>
      by_cases hlimit : limit ≤ pivots
      · simp only [if_pos hlimit]
        refine .note_bind ?_ (.fail _)
        exact ⟨horder, rfl⟩
      · simp only [if_neg hlimit]
        obtain ⟨hmem, hbasic⟩ := hlisted i (List.mem_cons_self ..)
        have hj := not_basic_of_replacement? hrep
        refine .note_bind ?_ ?_
        · exact ⟨horder, ⟨i, hmem, rfl, hbasic.symm⟩, i, rfl, brings_exchange hrep⟩
        · refine meets_driveOut rest (pivots + 1) _ (basic_injective_exchange h eps i hj) hrest fun k hk => ?_
          have hki : k ≠ i := by
            rintro rfl
            exact hi hk
          rw [basic_exchange_of_ne t eps j hki]
          exact hlisted' k hk

/-! ## The phases -/

variable [Tolerance F E] {options : Options E}

/-- The sweep over all rows with an artificial variable, from the tableau in which they were listed. -/
theorem meets_expelArtificials {pivots phaseOne : Nat} {buffer : Vector F L.columns} {t : Tableau F L m}
    (h : Function.Injective t.basic) : (t.expelArtificials options pivots).Meets
      (contract (Tolerance.read options.eps) direction cost) ⟨⟨m, t⟩, ⟨m, t⟩, pivots, phaseOne, buffer⟩
        fun out standing => standing = ⟨⟨m, out.tableau⟩, ⟨m, t⟩, out.pivots, phaseOne, buffer⟩ ∧
          Function.Injective out.tableau.basic ∧ out.redundant.Pairwise (· < ·) := by
  have hnodup := t.nodup_artificialBasics
  refine (meets_driveOut t.artificialBasics pivots t h hnodup fun i hi => ⟨hi, rfl⟩).bind ?_
  rintro out _ hout rfl
  have hsorted := pairwise_lt_mergeSort ((driveOut_vacates hnodup hout).sublist.nodup hnodup)
  have hinjective := basic_injective_driveOut h hout
  exact .pure ⟨rfl, hinjective, hsorted⟩

/-- The event of a removal is about rows that are there, and leads to the tableau without them. -/
theorem accepts_removal {eps : F} {out : DrivenOut F L m} (h : Function.Injective out.tableau.basic)
    (hsorted : out.redundant.Pairwise (· < ·)) (listed : Snapshot F L) (pivots phaseOne : Nat)
    (buffer : Vector F L.columns) :
    (contract eps direction cost).Accepts ⟨⟨m, out.tableau⟩, listed, pivots, phaseOne, buffer⟩ out.removal ∧
      (contract eps direction cost).after ⟨⟨m, out.tableau⟩, listed, pivots, phaseOne, buffer⟩ out.removal =
        ⟨⟨_, out.tableau.removeRows out.redundant⟩, listed, pivots, phaseOne, buffer⟩ := by
  rw [DrivenOut.removal]
  cases hempty : out.redundant.isEmpty with
  | true =>
    refine ⟨trivial, ?_⟩
    rw [List.isEmpty_iff.1 hempty, removeRows_nil]
    rfl
  | false =>
    refine ⟨⟨⟨inOrder h .., List.pairwise_map.2 hsorted, fun row hrow => ?_⟩, trivial⟩, ?_⟩
    · obtain ⟨i, -, rfl⟩ := List.mem_map.1 hrow
      exact i.isLt
    · show (⟨Snapshot.without _ _, _, _, _, _⟩ : Standing F L) = _
      rw [without_map_val]

end Tableau

/-- Where a run stands after the first phase: at the tableau in which the artificial variables are as small as they can
    be, or at the one the second phase starts from; in both cases the buffer is up to date. -/
def Feasibility.Leaves {F : Type} {L : Layout} [Scalar F] (f : Feasibility F L) (s : Standing F L) : Prop :=
  match f with
  | .infeasible final pivots => s = final.standing pivots pivots
  | .feasible basis => ∃ listed, s = ⟨⟨_, basis.tableau⟩, listed, basis.pivots, basis.pivots, basis.values⟩

/-- An outcome reports the tableau and the counts with which its run ends, and the buffer is up to date. -/
structure Outcome.Concludes {F : Type} {L : Layout} [Scalar F] (o : Outcome F L) (s : Standing F L) : Prop where
  final : o.final = s.current
  phaseOne : o.pivots.phaseOne = s.phaseOne
  phaseOne_le : s.phaseOne ≤ s.pivots
  phaseTwo : o.pivots.phaseTwo = s.pivots - s.phaseOne
  buffer : s.buffer = s.current.tableau.basicSolution

namespace Tableau

variable {F E : Type} {L : Layout} {m : Nat} [Scalar F] [Tolerance F E] {options : Options E}
  {direction : Direction} {cost : List F}

/-- The artificial cost is loaded while every artificial row has its artificial variable. -/
theorem expects_artificialLoaded {eps : F} {t : Tableau F L L.rows} (buffer : Vector F L.columns)
    (hfirst : ∀ i, (t.basic i).val = L.initialColumn i) :
    (Standing.start t buffer).Expects eps direction cost (.artificialLoaded ⟨_, t.loadArtificial⟩) := by
  refine ⟨fun j hj => L.mem_artificialColumns_iff.1 hj, fun i hi => ?_, rfl⟩
  refine ⟨⟨i, hi.2⟩, rfl, hfirst _, ?_⟩
  show L.isArtificial (t.basic ⟨i, hi.2⟩) = true
  rw [hfirst]
  exact L.isArtificial_initialColumn hi.1

/-- The first phase, from any buffer: every event is within the contract, and the tableau handed over, its buffer and
    its count are those noted down. -/
theorem meets_findFeasible {t : Tableau F L L.rows} (x buffer : Vector F L.columns)
    (h : Function.Injective t.basic) (hfirst : ∀ i, (t.basic i).val = L.initialColumn i) :
    (t.findFeasible options x).Meets (contract (Tolerance.read options.eps) direction cost) (.start t buffer)
      Feasibility.Leaves := by
  have hloaded : Function.Injective t.loadArtificial.basic := h
  refine .note_bind ?_ ?_
  · exact ⟨inOrder h .., expects_artificialLoaded buffer hfirst⟩
  refine (meets_descend .one options.limit 0 options.strategy x buffer _ hloaded).bind ?_
  rintro d _ hd ⟨rfl, -⟩
  obtain ⟨hinjective, -⟩ := values_of_descend hloaded hd
  cases d.status with
  | unbounded j => exact .fail _
  | optimal =>
    by_cases hv : (Tolerance.read options.eps : F) < d.tableau.value
    · simp only [if_pos hv]
      refine .note_bind ?_ (.pure ?_)
      · exact ⟨inOrder hinjective .., rfl⟩
      · rfl
    · simp only [if_neg hv]
      refine (meets_expelArtificials hinjective).bind ?_
      rintro out _ - ⟨rfl, hdriven, hsorted⟩
      obtain ⟨hremoval, hleft⟩ := accepts_removal hdriven hsorted ⟨_, d.tableau⟩ out.pivots 0 d.tableau.basicSolution
      have hremoved := basic_injective_removeRows hdriven out.redundant
      refine .notes_bind hremoval ?_
      rw [hleft]
      refine .note_bind ?_ (.note_bind ?_ (.pure ?_))
      · exact ⟨inOrder hremoved .., writeSolution_congr ..⟩
      · exact ⟨inOrder hremoved .., rfl, writeSolution_eq hremoved _⟩
      · exact ⟨⟨_, d.tableau⟩, rfl⟩

/-- The second phase, from wherever the first one ended. -/
theorem meets_improve {pivots : Nat} {t : Tableau F L m} (listed : Snapshot F L) (x buffer : Vector F L.columns)
    (h : Function.Injective t.basic) {c : Vector F L.decision} (hc : c.toList = cost) :
    (t.improve options direction c pivots x).Meets (contract (Tolerance.read options.eps) direction cost)
      ⟨⟨m, t⟩, listed, pivots, pivots, buffer⟩ Outcome.Concludes := by
  have hlength : cost.length ≤ L.columns := by
    rw [← hc, Vector.length_toList]
    exact L.decision_le_columns
  have hloaded : Function.Injective (t.loadCost direction c).basic := h
  refine .note_bind ?_ ?_
  · exact ⟨inOrder h .., fun j hj => L.mem_artificialColumns_iff.1 hj, hlength, c, hc, rfl⟩
  refine (meets_descend .two (options.limit - pivots) pivots options.strategy x buffer _ hloaded).bind ?_
  rintro d _ hd ⟨rfl, hle⟩
  obtain ⟨hinjective, -⟩ := values_of_descend hloaded hd
  have horder : (d.tableau.standing d.pivots pivots).InOrder := inOrder hinjective ..
  -- the end of the phase is the same for either verdict
  have hdone : ∀ verdict, (do
      .note (.done d.pivots)
      Pure.pure ⟨verdict, ⟨pivots, d.pivots - pivots⟩, ⟨m, d.tableau⟩⟩ :
        Journal (Event F L) (SolveError F E) (Outcome F L)).Meets
      (contract (Tolerance.read options.eps) direction cost) (d.tableau.standing d.pivots pivots)
      Outcome.Concludes := by
    intro verdict
    refine .note_bind ?_ (.pure ?_)
    · exact ⟨horder, rfl, hle, rfl⟩
    · exact ⟨rfl, rfl, hle, rfl, rfl⟩
  cases d.status with
  | optimal =>
    refine .note_bind ?_ (hdone (.optimal (d.solution direction)))
    exact ⟨horder, rfl⟩
  | unbounded j =>
    refine .note_bind ?_ (hdone .unbounded)
    exact ⟨horder, rfl⟩

/-- Both phases. -/
theorem meets_runPhases {t : Tableau F L L.rows} (buffer : Vector F L.columns) (h : Function.Injective t.basic)
    (hfirst : ∀ i, (t.basic i).val = L.initialColumn i) {c : Vector F L.decision} (hc : c.toList = cost) :
    (t.runPhases options direction c).Meets (contract (Tolerance.read options.eps) direction cost) (.start t buffer)
      Outcome.Concludes := by
  refine (meets_findFeasible (Vector.replicate _ 0) buffer h hfirst).bind ?_
  rintro f standing hf hleaves
  cases f with
  | infeasible final pivots =>
    obtain rfl : standing = final.standing pivots pivots := hleaves
    exact .pure ⟨rfl, rfl, le_refl _, (Nat.sub_self _).symm, rfl⟩
  | feasible basis =>
    obtain ⟨listed, rfl⟩ := hleaves
    exact meets_improve listed _ _ (basic_injective_of_findFeasible h hf) hc

/-- A cost that is accepted is taken as it is. -/
theorem toList_of_checkCost {c : Vector F L.decision} (h : checkCost L cost = .ok c) : c.toList = cost := by
  rw [checkCost] at h
  split at h
  · cases hfault : costFault? cost with
    | some cause => rw [hfault] at h; cases h
    | none =>
      rw [hfault] at h
      cases h
      rfl
  · cases h

/-- The checks before a run do no operation. -/
theorem meets_prepare {t : Tableau F L m} {s : Standing F L} (h : s.InOrder) :
    (t.prepare options cost).Meets (contract (Tolerance.read options.eps) direction cost) s
      fun c standing => standing = s ∧ c.toList = cost := by
  have hcheck : ∀ c, ((checkCost L cost).mapError (SolveError.inconsistent (E := E))) = .ok c → c.toList = cost := by
    intro c hc
    cases hresult : checkCost L cost with
    | error cause => rw [hresult] at hc; cases hc
    | ok c' =>
      rw [hresult] at hc
      cases hc
      exact toList_of_checkCost hresult
  have hoptions : (.ofExcept (options.check F) : Journal (Event F L) (SolveError F E) Unit).Meets
      (contract (Tolerance.read options.eps) direction cost) s fun _ standing => standing = s :=
    .ofExcept fun _ _ => rfl
  have hcost : (.ofExcept ((checkCost L cost).mapError .inconsistent) :
      Journal (Event F L) (SolveError F E) (Vector F L.decision)).Meets
      (contract (Tolerance.read options.eps) direction cost) s fun c standing => standing = s ∧ c.toList = cost :=
    .ofExcept fun c hc => ⟨rfl, hcheck c hc⟩
  refine hoptions.bind ?_
  intro _ standing _ hstanding
  rw [hstanding]
  refine hcost.bind ?_
  rintro c standing - ⟨hstanding, hc⟩
  rw [hstanding]
  refine .note_bind ?_ (.pure ⟨rfl, hc⟩)
  exact ⟨h, trivial⟩

/-- A run from an accepted tableau does what is expected at every event, and ends as it says it does. -/
theorem meets_solve {rows : List (List F)} {levels : List F} {t : Tableau F L L.rows}
    (ht : ofRows L rows levels = .ok t) (options : Options E) (direction : Direction) (cost : List F)
    (buffer : Vector F L.columns) : (t.solve options direction cost).Meets
      (contract (Tolerance.read options.eps) direction cost) (.start t buffer) Outcome.Concludes := by
  have hinjective := basic_injective_ofRows ht
  refine (meets_prepare (inOrder hinjective ..)).bind ?_
  rintro c _ - ⟨rfl, hc⟩
  refine meets_runPhases buffer hinjective (fun i => ?_) hc
  obtain ⟨-, rfl⟩ := ofRows_eq_ok_iff.1 ht
  rw [basic_fill]
  rfl

/-- **Every operation is within its contract.**  Whatever the numbers, the options and the cost, at every event of a run
    from an accepted tableau no column is basic in two rows and the parts of the tableau fit together, and the event is
    what is expected of it.  An outcome reports the tableau that all these operations lead to; its pivots of the second
    phase are those in all less those of the first one, of which there are no more. -/
theorem solve_within_contract {rows : List (List F)} {levels : List F} {t : Tableau F L L.rows}
    (ht : ofRows L rows levels = .ok t) (options : Options E) (direction : Direction) (cost : List F)
    (buffer : Vector F L.columns) :
    (∀ before e rest, (t.solve options direction cost).events = before ++ e :: rest →
      (before.foldl Standing.advance (.start t buffer)).InOrder ∧
      (before.foldl Standing.advance (.start t buffer)).Expects (Tolerance.read options.eps) direction cost e) ∧
    ∀ o, (t.solve options direction cost).result = .ok o →
      o.Concludes ((t.solve options direction cost).events.foldl Standing.advance (.start t buffer)) := by
  obtain ⟨haccepts, hends⟩ := meets_solve ht options direction cost buffer
  constructor
  · intro before e rest hevents
    rw [hevents] at haccepts
    exact haccepts.allows
  · exact hends

/-- Two equations with one solution, in which a variable is zero. -/
def tangent : Tableau ℚ ⟨2, 0, 0, 2⟩ 2 := fill ⟨2, 0, 0, 2⟩ [[1, 1, 1, 0], [1, 0, 0, 1]] [2, 2]

/-- In `tangent` one pivot takes both artificial variables to zero, and the one that is still basic then is replaced at
    level zero. -/
theorem solve_within_contract_tangent :
    ofRows ⟨2, 0, 0, 2⟩ [[1, 1, 1, 0], [1, 0, 0, 1]] [2, 2] = .ok tangent ∧
    (tangent.solve (⟨1/8, none, .dantzig, 0⟩ : Options ℚ) .minimize [1, 1]).events.filterMap Event.entering? =
      [⟨0, by decide⟩, ⟨1, by decide⟩] ∧
    (∀ before e rest, (tangent.solve (⟨1/8, none, .dantzig, 0⟩ : Options ℚ) .minimize [1, 1]).events =
        before ++ e :: rest →
      (before.foldl Standing.advance (.start tangent (Vector.replicate _ 0))).InOrder ∧
      (before.foldl Standing.advance (.start tangent (Vector.replicate _ 0))).Expects (1/8) .minimize
        [1, 1] e) ∧
    ∃ o s, (tangent.solve (⟨1/8, none, .dantzig, 0⟩ : Options ℚ) .minimize [1, 1]).result = .ok o ∧
      o.Concludes s ∧ s.phaseOne = 2 ∧ s.pivots = 2 := by
  have hfirst : ofRows ⟨2, 0, 0, 2⟩ [[1, 1, 1, 0], [1, 0, 0, 1]] [2, 2] = .ok tangent :=
    ofRows_eq_ok_iff.2 ⟨Option.isNone_iff_eq_none.1 (by decide +kernel), rfl⟩
  obtain ⟨hall, hends⟩ := solve_within_contract hfirst (⟨1/8, none, .dantzig, 0⟩ : Options ℚ) .minimize [1, 1]
    (Vector.replicate _ 0)
  obtain ⟨o, -, ho, -, -⟩ := exists_of_endsOptimal (by decide +kernel :
    endsOptimal (tangent.solve (⟨1/8, none, .dantzig, 0⟩ : Options ℚ) .minimize [1, 1]).result
      (fun _ _ => true) = true)
  exact ⟨hfirst, by decide +kernel, hall, o, _, ho, hends o ho, by decide +kernel, by decide +kernel⟩

end Tableau

end Simplex
