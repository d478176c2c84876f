/-
  Artificial variables do not come back.

  Nothing here depends on arithmetic: it holds for numbers of any kind, whatever the tolerance, and for runs that end
  with an error as well.  Only the bookkeeping is followed — which column is basic in which row, and which columns
  may enter.

  1. `Sweeps` — what driving out artificial variables does to something that is read off each row.  Each row is gone
     through once, so what one exchange brought about is not undone by a later one (`driveOut_sweeps`).  Of the basis
     it says that every row that is gone through gets a basic variable that is not artificial, or keeps its own and is
     marked as redundant (`driveOut_vacates`).
  2. `FeasibleBasis.Clean` — what the first phase hands over.  The marked rows come in order, they are the rows with
     an artificial variable, and removing them all leaves none.
  3. `Purged` — exactly the artificial columns are shut out, and none of them is basic.  Loading the cost of a program
     establishes it, and every pivot keeps it, since only columns that may enter do (`Purged.pivot`).
  4. `Event.KeepsOut` — no artificial variable enters with an event, or is written down with another value than zero.
     It holds of every event of a second phase, so the buffer is zero in the artificial columns all along.
  5. `artificials_stay_out` — the first phase ends clean, and every tableau of the second one is purged.
-/
import Mathlib.Data.List.Perm.Basic
import Simplex.Proofs.Expulsion
import Simplex.Proofs.Reached

namespace Simplex

/-! ## Sorted lists and what is left of the rows -/

section Lists

variable {m : Nat}

/-- Without duplicates, the order after sorting by different numbers is strict. -/
theorem pairwise_lt_mergeSort_of_injective {n : Nat} {f : Fin m → Fin n} (hf : Function.Injective f)
    {l : List (Fin m)} (h : l.Nodup) :
    (l.mergeSort fun i k => f i ≤ f k).Pairwise fun i k => f i < f k := by
  have hle : (l.mergeSort fun i k => f i ≤ f k).Pairwise fun i k => decide (f i ≤ f k) = true := by
    refine List.pairwise_mergeSort ?_ ?_ l
    · intro a b c hab hbc
      simp only [decide_eq_true_eq] at hab hbc ⊢
      exact le_trans hab hbc
    · intro a b
      simp only [Bool.or_eq_true, decide_eq_true_eq]
      exact le_total (f a) (f b)
  have hne : (l.mergeSort fun i k => f i ≤ f k).Nodup := (List.mergeSort_perm l _).nodup_iff.2 h
  refine (hle.and hne).imp ?_
  rintro a b ⟨hab, hne⟩
  exact lt_of_le_of_ne (of_decide_eq_true hab) fun heq => hne (hf heq)

/-- Different row numbers, sorted, are strictly ascending. -/
theorem pairwise_lt_mergeSort {l : List (Fin m)} (h : l.Nodup) :
    (l.mergeSort fun i k => i ≤ k).Pairwise (· < ·) :=
  pairwise_lt_mergeSort_of_injective Function.injective_id h

/-- Every row is removed or left, and none is both. -/
theorem Tableau.length_survivors_add {removed : List (Fin m)} (h : removed.Nodup) :
    (survivors removed).length + removed.length = m := by
  have hperm : (survivors removed ++ removed).Perm (List.finRange m) := by
    refine (List.perm_ext_iff_of_nodup ?_ (List.nodup_finRange m)).2 ?_
    · refine List.nodup_append.2 ⟨(List.nodup_finRange m).filter _, h, ?_⟩
      rintro i hi k hk rfl
      exact mem_survivors.1 hi hk
    · intro i
      simp only [List.mem_append, mem_survivors, List.mem_finRange, iff_true]
      exact (em (i ∈ removed)).symm
  rw [← List.length_append, hperm.length_eq, List.length_finRange]

end Lists

/-! ## Driving artificial variables out -/

namespace Tableau

variable {F E : Type} {L : Layout} {m : Nat} [Scalar F]

/-- What driving out the artificial variables of the rows `is` of `t` comes to, for something that is read off each row:
    rows that are not gone through, or are marked as redundant, show the same as before, and the others something
    `fresh`.  Every row that is not marked takes a pivot. -/
structure Sweeps {α : Type} (view : Tableau F L m → Fin m → α) (fresh : α → Prop) (t : Tableau F L m)
    (is : List (Fin m)) (pivots : Nat) (out : DrivenOut F L m) : Prop where
  sublist : out.redundant.Sublist is
  kept : ∀ i, i ∉ is ∨ i ∈ out.redundant → view out.tableau i = view t i
  replaced : ∀ i ∈ is, i ∉ out.redundant → fresh (view out.tableau i)
  pivots_add : out.pivots + out.redundant.length = pivots + is.length

section Step

variable {α : Type} {view : Tableau F L m → Fin m → α} {fresh : α → Prop} {t : Tableau F L m} {i : Fin m}
  {rest : List (Fin m)} {pivots : Nat} {out : DrivenOut F L m}

omit [Scalar F] in
/-- One more row, marked as redundant. -/
theorem Sweeps.mark (h : Sweeps view fresh t rest pivots out) (hi : i ∉ rest) :
    Sweeps view fresh t (i :: rest) pivots { out with redundant := i :: out.redundant } where
  sublist := h.sublist.cons_cons i
  kept k hk := by
    rcases hk with hout | hred
    · exact h.kept k (Or.inl fun hmem => hout (List.mem_cons_of_mem _ hmem))
    · rcases List.mem_cons.1 hred with rfl | hred
      · exact h.kept k (Or.inl hi)
      · exact h.kept k (Or.inr hred)
  replaced k hk hkred := by
    rcases List.mem_cons.1 hk with rfl | hk
    · exact absurd (List.mem_cons_self ..) hkred
    · exact h.replaced k hk fun hmem => hkred (List.mem_cons_of_mem _ hmem)
  pivots_add := by
    have hadd := h.pivots_add
    simp only [List.length_cons]
    omega

omit [Scalar F] in
/-- One more row, which shows something fresh after a pivot that the other rows do not show. -/
theorem Sweeps.exchange {t' : Tableau F L m} (h : Sweeps view fresh t' rest (pivots + 1) out) (hi : i ∉ rest)
    (hother : ∀ k, k ≠ i → view t' k = view t k) (hfresh : fresh (view t' i)) :
    Sweeps view fresh t (i :: rest) pivots out where
  sublist := h.sublist.cons i
  kept k hk := by
    have hki : k ≠ i := by
      rintro rfl
      rcases hk with hout | hred
      · exact hout (List.mem_cons_self ..)
      · exact hi (h.sublist.subset hred)
    rw [← hother k hki]
    exact h.kept k (hk.imp_left fun hout hmem => hout (List.mem_cons_of_mem _ hmem))
  replaced k hk hkred := by
    rcases List.mem_cons.1 hk with rfl | hk
    · rw [h.kept k (Or.inl hi)]
      exact hfresh
    · exact h.replaced k hk hkred
  pivots_add := by
    have hadd := h.pivots_add
    simp only [List.length_cons]
    omega

end Step

/-- It is enough to look at one exchange, with the help of whatever exchanges keep. -/
theorem driveOut_sweeps {α : Type} {view : Tableau F L m → Fin m → α} {fresh : α → Prop}
    {I : Tableau F L m → Prop} {eps : F} {limit : Nat}
    (hstep : ∀ (t : Tableau F L m) (i : Fin m) (j : Fin L.columns), I t → t.replacement? eps i = some j →
      I ((t.clearLevel i).pivot eps j i) ∧
      (∀ k, k ≠ i → view ((t.clearLevel i).pivot eps j i) k = view t k) ∧
      fresh (view ((t.clearLevel i).pivot eps j i) i))
    {is : List (Fin m)} {pivots : Nat} {t : Tableau F L m} {out : DrivenOut F L m} (hnodup : is.Nodup) (hI : I t)
    (hout : (driveOut (E := E) eps limit is pivots t).result = .ok out) : Sweeps view fresh t is pivots out := by
  refine driveOut_induct (motive := fun is pivots t out => is.Nodup → I t → Sweeps view fresh t is pivots out)
    ?_ ?_ ?_ hout hnodup hI
  · intro pivots t _ _
    exact ⟨List.Sublist.slnil, fun _ _ => rfl, fun i hi => (nomatch hi), rfl⟩
  · intro i rest pivots t out _ _ ih hnodup hI
    obtain ⟨hi, hrest⟩ := List.nodup_cons.1 hnodup
    exact (ih hrest hI).mark hi
  · intro i rest pivots t out j hrep _ _ ih hnodup hI
    obtain ⟨hi, hrest⟩ := List.nodup_cons.1 hnodup
    obtain ⟨hI', hother, hfresh⟩ := hstep t i j hI hrep
    exact (ih hrest hI').exchange hi hother hfresh

/-- An exchange leaves the basic columns of all other rows as they are. -/
theorem basic_exchange_of_ne (t : Tableau F L m) (eps : F) (j : Fin L.columns) {i k : Fin m}
    (h : k ≠ i) : ((t.clearLevel i).pivot eps j i).basic k = t.basic k := by
  rw [basic_pivot_of_ne _ eps j h, basic_clearLevel]

/-- One row after the other is vacated or marked. -/
theorem driveOut_vacates {eps : F} {limit : Nat} {is : List (Fin m)} {pivots : Nat} {t : Tableau F L m}
    {out : DrivenOut F L m} (hnodup : is.Nodup)
    (hout : (driveOut (E := E) eps limit is pivots t).result = .ok out) :
    Sweeps basic (fun j => L.isArtificial j = false) t is pivots out := by
  refine driveOut_sweeps (I := fun _ => True) ?_ hnodup trivial hout
  intro t i j _ hrep
  refine ⟨trivial, fun k hk => basic_exchange_of_ne t eps j hk, ?_⟩
  rw [basic_pivot_self]
  exact (replacement?_eq_some hrep).1

/-- No exchange makes a column basic in two rows. -/
theorem basic_injective_driveOut {eps : F} {limit pivots : Nat} {is : List (Fin m)} {t : Tableau F L m}
    {out : DrivenOut F L m} (h : Function.Injective t.basic)
    (hout : (driveOut (E := E) eps limit is pivots t).result = .ok out) :
    Function.Injective out.tableau.basic := by
  obtain ⟨b, htrail, hlast⟩ := follows_driveOut (E := E) eps limit is pivots t
  have hall := htrail.keeps (I := fun s => Function.Injective s.tableau.basic) ?_ h b htrail.last_mem
  · rw [← hlast out hout] at hall
    exact hall
  · rintro a b ha ⟨hrep⟩
    exact basic_injective_exchange ha eps _ (not_basic_of_replacement? hrep)

end Tableau

/-! ## What the first phase hands over -/

section HandOver

variable {F E : Type} {L : Layout}

/-- The rows to be removed come in order, and they are the rows with an artificial basic variable. -/
structure FeasibleBasis.Clean (b : FeasibleBasis F L) : Prop where
  sorted : b.redundant.Pairwise (· < ·)
  artificial_iff : ∀ i, L.isArtificial (b.full.basic i) = true ↔ i ∈ b.redundant

namespace FeasibleBasis.Clean

variable {b : FeasibleBasis F L}

theorem nodup (h : b.Clean) : b.redundant.Nodup := h.sorted.imp fun hlt => ne_of_lt hlt

/-- Rows are kept or removed, and none of them twice. -/
theorem rows_add (h : b.Clean) :
    (Tableau.survivors b.redundant).length + b.redundant.length = L.rows :=
  Tableau.length_survivors_add h.nodup

/-- No row that is left has an artificial basic variable. -/
theorem not_artificial (h : b.Clean) (i : Fin (Tableau.survivors b.redundant).length) :
    L.isArtificial (b.tableau.basic i) = false := by
  have hleft := Tableau.mem_survivors.1 (List.get_mem (Tableau.survivors b.redundant) i)
  rw [FeasibleBasis.tableau, Tableau.basic_removeRows]
  exact Bool.of_not_eq_true fun hart => hleft ((h.artificial_iff _).1 hart)

end FeasibleBasis.Clean

namespace Tableau

variable [Scalar F] [Tolerance F E] {t : Tableau F L L.rows} {options : Options E}
  {x : Vector F L.columns} {basis : FeasibleBasis F L}

/-- What the sweep hands over is clean, whatever the buffer was. -/
theorem clean_of_expelArtificials {pivots : Nat} {out : DrivenOut F L L.rows}
    (hout : (t.expelArtificials options pivots).result = .ok out) : (out.handOver x).Clean := by
  obtain ⟨redundant, hdriven, hsorted⟩ := expelArtificials_eq_ok_iff.1 hout
  have hnodup := t.nodup_artificialBasics
  have hvac := driveOut_vacates hnodup hdriven
  have hpairwise : out.redundant.Pairwise (· < ·) := by
    rw [hsorted]
    exact pairwise_lt_mergeSort (hvac.sublist.nodup hnodup)
  refine ⟨hpairwise, fun i => ?_⟩
  show L.isArtificial (out.tableau.basic i) = true ↔ i ∈ out.redundant
  rw [hsorted, List.mem_mergeSort]
  constructor
  · -- a row that was gone through and not marked has another variable now
    intro hart
    by_contra hred
    by_cases hi : i ∈ t.artificialBasics
    · have hvacant : L.isArtificial (out.tableau.basic i) = false := hvac.replaced i hi hred
      rw [hvacant] at hart
      cases hart
    · have hkept : out.tableau.basic i = t.basic i := hvac.kept i (Or.inl hi)
      rw [hkept] at hart
      exact hi (mem_artificialBasics.2 hart)
  · intro hred
    have hkept : out.tableau.basic i = t.basic i := hvac.kept i (Or.inr hred)
    rw [hkept]
    exact mem_artificialBasics.1 (hvac.sublist.subset hred)

/-- The first phase hands over a clean basis. -/
theorem clean_of_findFeasible (hf : (t.findFeasible options x).result = .ok (.feasible basis)) :
    basis.Clean := by
  obtain ⟨d, -, -, -, out, hout, rfl⟩ := findFeasible_eq_feasible hf
  exact clean_of_expelArtificials hout

/-- What the buffer holds when the first phase ends is written from the tableau that is handed over. -/
theorem values_of_findFeasible (hf : (t.findFeasible options x).result = .ok (.feasible basis)) :
    basis.values = basis.tableau.writeSolution x := by
  obtain ⟨d, -, -, -, out, -, rfl⟩ := findFeasible_eq_feasible hf
  exact writeSolution_congr _ _ _

/-- The first phase makes no column basic in two rows. -/
theorem basic_injective_of_findFeasible (h : Function.Injective t.basic)
    (hf : (t.findFeasible options x).result = .ok (.feasible basis)) : Function.Injective basis.tableau.basic := by
  obtain ⟨d, hd, -, -, out, hout, rfl⟩ := findFeasible_eq_feasible hf
  have hloaded : Function.Injective t.loadArtificial.basic := h
  obtain ⟨redundant, hdriven, -⟩ := expelArtificials_eq_ok_iff.1 hout
  exact basic_injective_removeRows (basic_injective_driveOut (values_of_descend hloaded hd).1 hdriven) _

/-- The first phase leaves it to the second one to shut columns out. -/
theorem isEligible_of_findFeasible (hf : (t.findFeasible options x).result = .ok (.feasible basis))
    (j : Fin L.columns) : basis.full.isEligible j = t.isEligible j := by
  obtain ⟨l, b, -, htrail, hlast⟩ := t.trail_findFeasible options x
  have hall := htrail.keeps (I := fun s => s.tableau.isEligible j = t.isEligible j) ?_ rfl b htrail.last_mem
  · rw [← hlast _ hf] at hall
    exact hall
  · rintro a b ha (hpivot | hexchange)
    · cases hpivot with
      | intro _ => exact ha
    · cases hexchange with
      | intro _ => exact ha

end Tableau

end HandOver

/-! ## The second phase -/

section PhaseTwo

variable {F E : Type} {L : Layout} {m : Nat}

/-- The column that entered the basis. -/
def Event.entering? : Event F L → Option (Fin L.columns)
  | .pivoted _ _ entering _ _ _ _ => some entering
  | .replaced entering _ _ _ => some entering
  | _ => none

section KeepsOut

variable [Zero F]

/-- The event brings no artificial variable back: none enters the basis, and none is written down with another value
    than zero. -/
def Event.KeepsOut : Event F L → Prop
  | .pivoted _ _ entering _ _ _ _ => L.isArtificial entering = false
  | .replaced entering _ _ _ => L.isArtificial entering = false
  | .written values => ∀ j : Fin L.columns, L.isArtificial j = true → values.get j = 0
  | _ => True

namespace Event.KeepsOut

/-- No artificial variable enters. -/
theorem not_artificial {e : Event F L} (h : e.KeepsOut) {j : Fin L.columns} (hj : e.entering? = some j) :
    L.isArtificial j = false := by
  cases e with
  | pivoted => cases hj; exact h
  | replaced => cases hj; exact h
  | _ => cases hj

/-- A buffer that is zero in the artificial columns stays so. -/
theorem get_buffer {e : Event F L} (h : e.KeepsOut) {x : Vector F L.columns} {j : Fin L.columns}
    (hj : L.isArtificial j = true) (hx : x.get j = 0) : (e.buffer x).get j = 0 := by
  cases e with
  | written values => exact h j hj
  | _ => exact hx

/-- Once a buffer is zero in an artificial column, it stays so along events that keep these columns out. -/
theorem get_foldl_buffer {j : Fin L.columns} (hj : L.isArtificial j = true) : ∀ {events : List (Event F L)}
    {x : Vector F L.columns}, (∀ e ∈ events, e.KeepsOut) → x.get j = 0 → (events.foldl Event.buffer x).get j = 0
  | [], _, _, hx => hx
  | e :: rest, x, h, hx => by
    rw [List.foldl_cons]
    refine get_foldl_buffer hj (fun e' he' => h e' (List.mem_cons_of_mem _ he')) ?_
    exact (h e (List.mem_cons_self ..)).get_buffer hj hx

end Event.KeepsOut

/-- A change of mode lets nothing in. -/
theorem Strategy.keepsOut_of_mem_switch {before after : Strategy} {e : Event F L}
    (he : e ∈ before.switch after) : e.KeepsOut := by
  obtain hnil | ⟨streak, hcareful⟩ | hgreedy := switch_cases (F := F) (L := L) before after
  · rw [hnil] at he
    cases he
  · rw [hcareful] at he
    rw [List.mem_singleton.1 he]
    trivial
  · rw [hgreedy] at he
    rw [List.mem_singleton.1 he]
    trivial

end KeepsOut

/-- What holds of the events of both parts of a run holds of all its events. -/
theorem Journal.forall_mem_events_bind {ω ε α β : Type} {P : ω → Prop} {x : Journal ω ε α}
    {f : α → Journal ω ε β} (hx : ∀ e ∈ x.events, P e) (hf : ∀ a, ∀ e ∈ (f a).events, P e) :
    ∀ e ∈ (x >>= f).events, P e := by
  cases h : x.result with
  | error err =>
    rw [bind_of_error h]
    exact hx
  | ok a =>
    rw [bind_of_ok h]
    intro e he
    rcases List.mem_append.1 he with he | he
    · exact hx e he
    · exact hf a e he

namespace Tableau

/-- Exactly the artificial columns are shut out, and none of them is basic. -/
structure Purged (t : Tableau F L m) : Prop where
  eligible_iff : ∀ j, t.isEligible j = false ↔ L.isArtificial j = true
  not_artificial : ∀ i, L.isArtificial (t.basic i) = false

namespace Purged

variable {t : Tableau F L m}

/-- A column that may enter is not artificial. -/
theorem isArtificial_of_isEligible (h : t.Purged) {j : Fin L.columns} (hj : t.isEligible j = true) :
    L.isArtificial j = false := by
  refine Bool.of_not_eq_true ?_
  intro hart
  rw [(h.eligible_iff j).2 hart] at hj
  cases hj

/-- No artificial variable is in the basis. -/
theorem not_basic (h : t.Purged) {j : Fin L.columns} (hj : L.isArtificial j = true) : t.isBasic j = false := by
  refine Bool.of_not_eq_true ?_
  intro hb
  obtain ⟨i, rfl⟩ := isBasic_iff.1 hb
  rw [h.not_artificial i] at hj
  cases hj

variable [Scalar F]

/-- A chosen pivot enters a column that may enter. -/
theorem pivot (h : t.Purged) {eps : F} {mode : Mode} {j : Fin L.columns} {i : Fin m} (hc : t.Chooses eps mode j i) :
    (t.pivot eps j i).Purged where
  eligible_iff := h.eligible_iff
  not_artificial k := by
    by_cases hk : k = i
    · rw [hk, basic_pivot_self]
      exact h.isArtificial_of_isEligible hc.isEligible
    · rw [basic_pivot_of_ne t eps j hk]
      exact h.not_artificial k

/-- A basis without artificial variables is purged as soon as the objective of the program is loaded. -/
theorem loadCost (hb : ∀ i, L.isArtificial (t.basic i) = false) (he : ∀ j, t.isEligible j = true)
    (direction : Direction) (cost : Vector F L.decision) : (t.loadCost direction cost).Purged where
  eligible_iff j := by
    rw [isEligible_loadCost, he j, Bool.true_and, Bool.not_eq_false']
  not_artificial := hb

/-- Artificial variables are zero in the basic solution. -/
theorem basicSolution_eq_zero (h : t.Purged) {j : Fin L.columns} (hj : L.isArtificial j = true) :
    t.basicSolution.get j = 0 := by
  rw [get_basicSolution]
  exact solutionAt_of_not_basic (h.not_basic hj)

/-- They are zero in what is written down. -/
theorem keepsOut_written (h : t.Purged) (x : Vector F L.columns) :
    (Event.written (t.writeSolution x)).KeepsOut :=
  fun _ hj => get_writeSolution_of_not_basic (h.not_basic hj) x

end Purged

variable [Scalar F]

/-- A descent from a purged tableau lets no artificial variable in. -/
theorem Purged.keepsOut_of_mem_events_descend {phase : Phase} {eps : F} (left pivots : Nat) (s : Strategy)
    (x : Vector F L.columns) {t : Tableau F L m} (h : t.Purged) :
    ∀ e ∈ (t.descend (E := E) phase eps left pivots s x).events, e.KeepsOut := by
  rw [descend]
  refine Journal.forall_mem_events_bind ?_ fun _ => ?_
  · intro e he
    rw [List.mem_singleton.1 he]
    exact h.keepsOut_written x
  rcases t.choice_cases eps s.mode with hj | ⟨j, hj, hi⟩ | ⟨j, i, hc⟩
  · rw [hj]
    intro e he
    cases he
  · rw [hj]
    simp only [hi]
    intro e he
    rw [List.mem_singleton.1 he]
    trivial
  · rw [hc.entering]
    simp only [hc.leaving]
    cases left with
    | zero =>
      intro e he
      rw [List.mem_singleton.1 he]
      trivial
    | succ left =>
      refine Journal.forall_mem_events_bind ?_ fun _ => Journal.forall_mem_events_bind ?_ fun _ => ?_
      · intro e he
        exact Strategy.keepsOut_of_mem_switch he
      · intro e he
        rw [List.mem_singleton.1 he]
        exact h.isArtificial_of_isEligible hc.isEligible
      · exact (h.pivot hc).keepsOut_of_mem_events_descend left (pivots + 1) _ _

variable [Tolerance F E] {t : Tableau F L m} (hb : ∀ i, L.isArtificial (t.basic i) = false)
  (he : ∀ j, t.isEligible j = true) (options : Options E) (direction : Direction) (cost : Vector F L.decision)
  (pivots : Nat) (x : Vector F L.columns)

include hb he

/-- The same for a whole second phase that starts without artificial basic variables. -/
theorem keepsOut_of_mem_events_improve :
    ∀ e ∈ (t.improve options direction cost pivots x).events, e.KeepsOut := by
  have hloaded := Purged.loadCost hb he direction cost
  refine Journal.forall_mem_events_bind ?_ fun _ => Journal.forall_mem_events_bind ?_ fun d => ?_
  · intro e he
    rw [List.mem_singleton.1 he]
    trivial
  · exact hloaded.keepsOut_of_mem_events_descend _ _ _ _
  · -- the verdict and the end
    obtain ⟨status, reached, values, count⟩ := d
    intro e he
    cases status <;>
    · rcases List.mem_cons.1 he with rfl | he
      · trivial
      · rw [List.mem_singleton.1 he]
        trivial

/-- A second phase that starts without artificial basic variables goes on without them. -/
theorem purged_of_improve :
    ∀ s ∈ (t.improve options direction cost pivots x).reached, s.tableau.Purged := by
  obtain ⟨l, b, hreached, htrail, -⟩ := t.trail_improve options direction cost pivots x
  rw [hreached]
  refine htrail.keeps ?_ (Purged.loadCost hb he direction cost)
  rintro a b ha ⟨hc⟩
  exact Purged.pivot ha hc

omit hb he

/-! ## Both phases -/

/-- **Artificial variables do not come back.**  For numbers of any kind, whenever the first phase finds a feasible
    basis, the rows it removes come in order and are those with an artificial basic variable, so that none of the
    rows that are left has one.  In every tableau of the second phase exactly the artificial columns are shut out,
    none of them is basic, and the basic solution is zero there; after any of its events the buffer for the solution is
    zero there, from the values handed over on; and no pivot enters one. -/
theorem artificials_stay_out {rows : List (List F)} {levels : List F} {t : Tableau F L L.rows}
    (ht : ofRows L rows levels = .ok t) (options : Options E) {x : Vector F L.columns} {basis : FeasibleBasis F L}
    (hf : (t.findFeasible options x).result = .ok (.feasible basis)) :
    (∀ i, L.isArtificial (basis.tableau.basic i) = false) ∧
    (survivors basis.redundant).length + basis.redundant.length = L.rows ∧
    basis.redundant.Pairwise (· < ·) ∧
    (∀ i ∈ basis.redundant, L.isArtificial (basis.full.basic i) = true) ∧
    ∀ (direction : Direction) (cost : Vector F L.decision),
      (∀ s ∈ (basis.tableau.improve options direction cost basis.pivots basis.values).reached,
        (∀ j, s.tableau.isEligible j = false ↔ L.isArtificial j = true) ∧
        (∀ i, L.isArtificial (s.tableau.basic i) = false) ∧
        ∀ j : Fin L.columns, L.isArtificial j = true → s.tableau.basicSolution.get j = 0) ∧
      (∀ before, before <+: (basis.tableau.improve options direction cost basis.pivots basis.values).events →
        ∀ j : Fin L.columns, L.isArtificial j = true → (before.foldl Event.buffer basis.values).get j = 0) ∧
      ∀ e ∈ (basis.tableau.improve options direction cost basis.pivots basis.values).events, ∀ j,
        e.entering? = some j → L.isArtificial j = false := by
  have hclean := clean_of_findFeasible hf
  have heligible : ∀ j, basis.tableau.isEligible j = true := by
    intro j
    obtain ⟨-, rfl⟩ := ofRows_eq_ok_iff.1 ht
    exact (isEligible_of_findFeasible hf j).trans (isEligible_fill ..)
  refine ⟨hclean.not_artificial, hclean.rows_add, hclean.sorted,
    fun i hi => (hclean.artificial_iff i).2 hi, fun direction cost => ?_⟩
  have hkeeps := keepsOut_of_mem_events_improve hclean.not_artificial heligible options direction cost basis.pivots
    basis.values
  refine ⟨fun s hs => ?_, fun before hbefore j hj => ?_, fun e he j hj => (hkeeps e he).not_artificial hj⟩
  · have hpurged := purged_of_improve hclean.not_artificial heligible options direction cost basis.pivots _ s hs
    exact ⟨hpurged.eligible_iff, hpurged.not_artificial, fun j hj => hpurged.basicSolution_eq_zero hj⟩
  · refine Event.KeepsOut.get_foldl_buffer hj (fun e he => hkeeps e (hbefore.subset he)) ?_
    -- the cost is loaded over the basis from which the values were written
    have hloaded := Purged.loadCost hclean.not_artificial heligible direction cost
    rw [values_of_findFeasible hf]
    exact get_writeSolution_of_not_basic (hloaded.not_basic hj) x

/-- An equation stated twice. -/
def repeated : Tableau ℚ ⟨2, 0, 0, 2⟩ 2 := fill ⟨2, 0, 0, 2⟩ [[1, 1, 1, 0], [1, 1, 0, 1]] [2, 2]

theorem ofRows_repeated : ofRows ⟨2, 0, 0, 2⟩ [[1, 1, 1, 0], [1, 1, 0, 1]] [2, 2] = .ok repeated :=
  ofRows_eq_ok_iff.2 ⟨Option.isNone_iff_eq_none.1 (by decide +kernel), rfl⟩

/-- In `repeated`, the first phase replaces the artificial variable of the first row and removes the second row; the
    second phase makes a pivot, and neither artificial variable takes part in it.  The buffer starts with other numbers;
    when the first phase is through, all of them are overwritten. -/
theorem artificials_stay_out_repeated :
    ofRows ⟨2, 0, 0, 2⟩ [[1, 1, 1, 0], [1, 1, 0, 1]] [2, 2] = .ok repeated ∧
    ∃ basis, (repeated.findFeasible (⟨1/8, none, .dantzig, 0⟩ : Options ℚ) #v[7, 7, 7, 7]).result =
        .ok (.feasible basis) ∧
      basis.redundant.map (·.val) = [1] ∧
      (∀ i, Layout.isArtificial ⟨2, 0, 0, 2⟩ (basis.tableau.basic i) = false) ∧
      (basis.tableau.improve (⟨1/8, none, .dantzig, 0⟩ : Options ℚ) .minimize #v[1, 0]
        basis.pivots basis.values).reached.length = 2 ∧
      (∀ s ∈ (basis.tableau.improve (⟨1/8, none, .dantzig, 0⟩ : Options ℚ) .minimize #v[1, 0]
          basis.pivots basis.values).reached,
        (∀ i, Layout.isArtificial ⟨2, 0, 0, 2⟩ (s.tableau.basic i) = false) ∧
        s.tableau.basicSolution.get ⟨2, by decide⟩ = 0 ∧ s.tableau.basicSolution.get ⟨3, by decide⟩ = 0) ∧
      basis.values.toList = [2, 0, 0, 0] ∧
      ((basis.tableau.improve (⟨1/8, none, .dantzig, 0⟩ : Options ℚ) .minimize #v[1, 0]
        basis.pivots basis.values).events.foldl Event.buffer basis.values).toList = [0, 2, 0, 0] ∧
      ∀ before, before <+: (basis.tableau.improve (⟨1/8, none, .dantzig, 0⟩ : Options ℚ) .minimize #v[1, 0]
          basis.pivots basis.values).events →
        (before.foldl Event.buffer basis.values).get ⟨2, by decide⟩ = 0 ∧
        (before.foldl Event.buffer basis.values).get ⟨3, by decide⟩ = 0 := by
  have hend : (match (repeated.findFeasible (⟨1/8, none, .dantzig, 0⟩ : Options ℚ) #v[7, 7, 7, 7]).result with
      | .ok (.feasible basis) => decide (basis.redundant.map (·.val) = [1] ∧
        (basis.tableau.improve (⟨1/8, none, .dantzig, 0⟩ : Options ℚ) .minimize #v[1, 0]
          basis.pivots basis.values).reached.length = 2 ∧
        basis.values.toList = [2, 0, 0, 0] ∧
        ((basis.tableau.improve (⟨1/8, none, .dantzig, 0⟩ : Options ℚ) .minimize #v[1, 0]
          basis.pivots basis.values).events.foldl Event.buffer basis.values).toList = [0, 2, 0, 0])
      | _ => false) = true := by decide +kernel
  split at hend
  · rename_i basis hf
    obtain ⟨hred, hlen, hvalues, hlast⟩ := of_decide_eq_true hend
    obtain ⟨hleft, -, -, -, htwo⟩ := artificials_stay_out ofRows_repeated _ hf
    obtain ⟨hreached, hbuffer, -⟩ := htwo .minimize #v[1, 0]
    refine ⟨ofRows_repeated, basis, hf, hred, hleft, hlen, fun s hs => ?_, hvalues, hlast, fun before hbefore => ?_⟩
    · obtain ⟨-, hbasic, hzero⟩ := hreached s hs
      exact ⟨hbasic, hzero _ (by decide), hzero _ (by decide)⟩
    · exact ⟨hbuffer before hbefore _ (by decide), hbuffer before hbefore _ (by decide)⟩
  · cases hend

end Tableau

end PhaseTwo

end Simplex
