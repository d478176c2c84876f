/-
  The tableaux a run goes through.

  A run notes every tableau it reaches: after each load of an objective and after each pivot, those at level zero
  included.  What such a list can look like is said here once, for numbers of any kind and for runs that end with
  an error as well; invariants are then proved one step at a time.

  1. `Trail R a l b` — one step of `R` after the other leads from `a` through the states of `l` to `b`.  What every
     step keeps holds all along (`Trail.keeps`), and what every step from a good state keeps holds as long as all
     states were good (`Trail.keeps_while`).
  2. `Journal.gathered` — what is seen of the events of a run, `Journal.reached` — the tableaux it reached, and
     `Journal.Follows` — they are a trail to where the run ended.  It goes through sequences, so that a loop or a phase
     is followed the way it is written.
  3. `Snapshot.PivotsTo`, `Snapshot.ExchangesTo`, `Snapshot.HandsOverTo` — the steps of a run: a chosen pivot, an
     artificial variable replaced at level zero, and the start of the second phase.
  4. `Tableau.trail_findFeasible`, `Tableau.trail_improve`, `Tableau.trail_runPhases` — the tableaux reached by a
     phase, or by both, are a trail of such steps.
-/
import Simplex.Proofs.Descent

namespace Simplex

/-! ## Trails -/

/-- One step after the other leads from the first state through those of the list to the last one. -/
inductive Trail {α : Type} (R : α → α → Prop) : α → List α → α → Prop
  | nil (a : α) : Trail R a [] a
  | cons {a b c : α} {l : List α} (head : R a b) (tail : Trail R b l c) : Trail R a (b :: l) c

namespace Trail

variable {α : Type} {R S : α → α → Prop} {a b c : α} {l l' : List α}

/-- Trails that meet are joined. -/
theorem append (h : Trail R a l b) (h' : Trail R b l' c) : Trail R a (l ++ l') c := by
  induction h with
  | nil => exact h'
  | cons head _ ih => exact .cons head (ih h')

/-- A trail of steps of one kind is one of every wider kind. -/
theorem mono (hRS : ∀ a b, R a b → S a b) (h : Trail R a l b) : Trail S a l b := by
  induction h with
  | nil => exact .nil _
  | cons head _ ih => exact .cons (hRS _ _ head) ih

/-- A trail ends at its start or at a place it passes. -/
theorem last_mem (h : Trail R a l b) : b ∈ a :: l := by
  induction h with
  | nil => exact List.mem_cons_self ..
  | cons _ _ ih => exact List.mem_cons_of_mem _ ih

/-- What every step from a good state keeps holds of a state if all states before it are good. -/
theorem keeps_while {I G : α → Prop} (hstep : ∀ a b, I a → G a → R a b → I b)
    (h : Trail R a l b) (ha : I a) {before after : List α} {s : α}
    (hl : a :: l = before ++ s :: after) (hgood : ∀ u ∈ before, G u) : I s := by
  induction h generalizing before with
  | nil =>
    cases before with
    | nil =>
      cases hl
      exact ha
    | cons u before => simp at hl
  | cons head _ ih =>
    cases before with
    | nil =>
      cases hl
      exact ha
    | cons u before =>
      obtain ⟨rfl, hrest⟩ := List.cons.inj hl
      refine ih (hstep _ _ ha (hgood _ (List.mem_cons_self ..)) head) hrest ?_
      exact fun v hv => hgood v (List.mem_cons_of_mem _ hv)

/-- If all states are good, what every step from a good state keeps holds at the end. -/
theorem keeps_to_last {I G : α → Prop} (hstep : ∀ a b, I a → G a → R a b → I b)
    (h : Trail R a l b) (ha : I a) (hgood : ∀ u ∈ a :: l, G u) : I b := by
  obtain ⟨before, after, hl⟩ := List.append_of_mem h.last_mem
  refine h.keeps_while hstep ha hl ?_
  intro u hu
  refine hgood u ?_
  rw [hl]
  exact List.mem_append_left _ hu

/-- What every step keeps holds all along. -/
theorem keeps {I : α → Prop} (hstep : ∀ a b, I a → R a b → I b) (h : Trail R a l b) (ha : I a) :
    ∀ s ∈ a :: l, I s := by
  intro s hs
  obtain ⟨before, after, hl⟩ := List.append_of_mem hs
  exact h.keeps_while (G := fun _ => True) (fun a b ha _ => hstep a b ha) ha hl fun _ _ => trivial

end Trail

/-! ## What a journal reached -/

namespace Journal

section Gathered

variable {ω ε α β γ : Type} {view : ω → Option γ}

/-- What is seen of the events of a run, in order. -/
def gathered (view : ω → Option γ) (run : Journal ω ε α) : List γ := run.events.filterMap view

/-- What is seen of two parts of a run is what is seen of the one and then of the other. -/
theorem gathered_bind_of_ok {x : Journal ω ε α} {a : α} (h : x.result = .ok a) (f : α → Journal ω ε β) :
    (x >>= f).gathered view = x.gathered view ++ (f a).gathered view := by
  rw [bind_of_ok h, gathered, gathered, gathered, List.filterMap_append]

/-- Of a run that fails in its first part, only that part is seen. -/
theorem gathered_bind_of_error {x : Journal ω ε α} {e : ε} (h : x.result = .error e) (f : α → Journal ω ε β) :
    (x >>= f).gathered view = x.gathered view := by
  rw [bind_of_error h, gathered, gathered]

/-- What is done after the last event that is seen does not show. -/
theorem gathered_bind_of_silent (x : Journal ω ε α) {f : α → Journal ω ε β} (hf : ∀ a, (f a).gathered view = []) :
    (x >>= f).gathered view = x.gathered view := by
  cases h : x.result with
  | error e => exact gathered_bind_of_error h f
  | ok a => rw [gathered_bind_of_ok h, hf a, List.append_nil]

/-- Nor does an event that is not seen. -/
theorem gathered_note_bind {e : ω} (he : view e = none) (f : Unit → Journal ω ε β) :
    (note e >>= f).gathered view = (f ()).gathered view := by
  rw [note_bind, gathered, List.filterMap_cons_none he]
  rfl

end Gathered

variable {F ε α β : Type} {L : Layout}

/-- The tableaux a run reached, in order. -/
def reached (run : Journal (Event F L) ε α) : List (Snapshot F L) := run.events.filterMap Event.reached?

theorem reached_bind_of_ok {x : Journal (Event F L) ε α} {a : α} (h : x.result = .ok a)
    (f : α → Journal (Event F L) ε β) : (x >>= f).reached = x.reached ++ (f a).reached :=
  gathered_bind_of_ok h f

theorem reached_bind_of_error {x : Journal (Event F L) ε α} {e : ε} (h : x.result = .error e)
    (f : α → Journal (Event F L) ε β) : (x >>= f).reached = x.reached :=
  gathered_bind_of_error h f

/-- What the first part of a run reaches is reached by the run. -/
theorem mem_reached_bind {x : Journal (Event F L) ε α} {s : Snapshot F L} (h : s ∈ x.reached)
    (f : α → Journal (Event F L) ε β) : s ∈ (x >>= f).reached := by
  cases hx : x.result with
  | error e =>
    rw [reached_bind_of_error hx]
    exact h
  | ok a =>
    rw [reached_bind_of_ok hx]
    exact List.mem_append_left _ h

/-- What is done after the last tableau is reached does not show. -/
theorem reached_bind_of_silent (x : Journal (Event F L) ε α) {f : α → Journal (Event F L) ε β}
    (hf : ∀ a, (f a).reached = []) : (x >>= f).reached = x.reached :=
  gathered_bind_of_silent x hf

/-- The run goes on from `a` in steps of `R`; if it ends well, with `r`, it has come to `last r`. -/
def Follows (R : Snapshot F L → Snapshot F L → Prop) (a : Snapshot F L) (last : α → Snapshot F L)
    (run : Journal (Event F L) ε α) : Prop :=
  ∃ b, Trail R a run.reached b ∧ ∀ r, run.result = .ok r → last r = b

namespace Follows

variable {R S : Snapshot F L → Snapshot F L → Prop} {a b : Snapshot F L} {last : α → Snapshot F L}
  {last' : β → Snapshot F L} {run : Journal (Event F L) ε α}

/-- A run that reaches no tableau stays where it is. -/
theorem of_reached_eq_nil (h : run.reached = []) (hlast : ∀ r, run.result = .ok r → last r = a) :
    run.Follows R a last := by
  refine ⟨a, ?_, hlast⟩
  rw [h]
  exact .nil a

theorem pure {r : α} (h : last r = a) :
    (Pure.pure r : Journal (Event F L) ε α).Follows R a last := by
  refine of_reached_eq_nil rfl ?_
  intro r' hr'
  cases hr'
  exact h

theorem fail (e : ε) : (Journal.fail e : Journal (Event F L) ε α).Follows R a last :=
  of_reached_eq_nil rfl fun _ hr => (nomatch hr)

theorem mono (hRS : ∀ a b, R a b → S a b) (h : run.Follows R a last) : run.Follows S a last := by
  obtain ⟨b, htrail, hlast⟩ := h
  exact ⟨b, htrail.mono hRS, hlast⟩

/-- Runs that follow steps are composed like the steps. -/
theorem bind (h : run.Follows R a last) {f : α → Journal (Event F L) ε β}
    (hf : ∀ r, run.result = .ok r → (f r).Follows R (last r) last') :
    (run >>= f).Follows R a last' := by
  obtain ⟨b, htrail, hlast⟩ := h
  cases hr : run.result with
  | error e =>
    refine ⟨b, ?_, ?_⟩
    · rw [reached_bind_of_error hr]
      exact htrail
    · intro r' hr'
      rw [bind_of_error hr] at hr'
      cases hr'
  | ok r =>
    obtain ⟨c, htrail', hlast'⟩ := hf r hr
    rw [hlast r hr] at htrail'
    refine ⟨c, ?_, ?_⟩
    · rw [reached_bind_of_ok hr]
      exact htrail.append htrail'
    · rw [result_bind_of_ok hr]
      exact hlast'

/-- Go on after a part that reaches no tableau. -/
theorem bind_of_reached_eq_nil (h : run.reached = []) {f : α → Journal (Event F L) ε β}
    (hf : ∀ r, (f r).Follows R a last') : (run >>= f).Follows R a last' := by
  have hstay : run.Follows R a fun _ => a := of_reached_eq_nil h fun _ _ => rfl
  exact hstay.bind fun r _ => hf r

/-- An event that reaches no tableau. -/
theorem note_bind {e : Event F L} (he : e.reached? = none) {f : Unit → Journal (Event F L) ε β}
    (hf : (f ()).Follows R a last') : (note e >>= f).Follows R a last' := by
  refine bind_of_reached_eq_nil ?_ fun _ => hf
  rw [reached, events_note, List.filterMap_cons_none he, List.filterMap_nil]

/-- An event that reaches a tableau is a step. -/
theorem step_bind {e : Event F L} (he : e.reached? = some b) (hab : R a b)
    {f : Unit → Journal (Event F L) ε β} (hf : (f ()).Follows R b last') :
    (note e >>= f).Follows R a last' := by
  have hnote : (note e : Journal (Event F L) ε Unit).Follows R a fun _ => b := by
    refine ⟨b, ?_, fun _ _ => rfl⟩
    rw [reached, events_note, List.filterMap_cons_some he]
    exact .cons hab (.nil b)
  exact hnote.bind fun _ _ => hf

/-- A run that begins by reaching a tableau, and follows on from there. -/
theorem cons {e : Event F L} (he : e.reached? = some a) {f : Unit → Journal (Event F L) ε α}
    (hf : (f ()).Follows R a last) : ∃ l b, (note e >>= f).reached = a :: l ∧ Trail R a l b ∧
      ∀ r, (note e >>= f).result = .ok r → last r = b := by
  obtain ⟨b, htrail, hlast⟩ := hf
  refine ⟨(f ()).reached, b, ?_, htrail, hlast⟩
  rw [Journal.note_bind, reached, List.filterMap_cons_some he]
  rfl

end Follows

end Journal

/-- A change of mode reaches no tableau, and so is not seen by a view of those that are reached. -/
theorem Strategy.filterMap_switch {F γ : Type} {L : Layout} {view : Event F L → Option γ}
    (hview : ∀ e : Event F L, e.reached? = none → view e = none) (before after : Strategy) :
    (before.switch after).filterMap view = [] := by
  obtain hnil | ⟨streak, hcareful⟩ | hgreedy := switch_cases (F := F) (L := L) before after
  · rw [hnil, List.filterMap_nil]
  · rw [hcareful, List.filterMap_cons_none (hview _ rfl), List.filterMap_nil]
  · rw [hgreedy, List.filterMap_cons_none (hview _ rfl), List.filterMap_nil]

variable {F E : Type} {L : Layout} {m : Nat} [Scalar F]

/-! ## The steps of a run -/

/-- A column enters and a row leaves. -/
inductive Snapshot.PivotsTo (eps : F) : Snapshot F L → Snapshot F L → Prop
  | intro {m : Nat} {t : Tableau F L m} {mode : Mode} {j : Fin L.columns} {i : Fin m}
      (h : t.Chooses eps mode j i) : PivotsTo eps ⟨m, t⟩ ⟨m, t.pivot eps j i⟩

/-- The artificial variable of a row is replaced, at level zero. -/
inductive Snapshot.ExchangesTo (eps : F) : Snapshot F L → Snapshot F L → Prop
  | intro {m : Nat} {t : Tableau F L m} {i : Fin m} {j : Fin L.columns}
      (h : t.replacement? eps i = some j) : ExchangesTo eps ⟨m, t⟩ ⟨m, (t.clearLevel i).pivot eps j i⟩

/-- Redundant rows are removed, and the cost of the program becomes the objective. -/
inductive Snapshot.HandsOverTo (direction : Direction) (cost : Vector F L.decision) :
    Snapshot F L → Snapshot F L → Prop
  | intro (basis : FeasibleBasis F L) :
      HandsOverTo direction cost ⟨_, basis.full⟩ ⟨_, basis.tableau.loadCost direction cost⟩

/-- A step of the first phase. -/
def Snapshot.StepsInOne (eps : F) (a b : Snapshot F L) : Prop := a.PivotsTo eps b ∨ a.ExchangesTo eps b

/-- A step of the whole run. -/
def Snapshot.StepsTo (eps : F) (direction : Direction) (cost : Vector F L.decision)
    (a b : Snapshot F L) : Prop := a.StepsInOne eps b ∨ a.HandsOverTo direction cost b

/-- The tableau at the end of the first phase. -/
def Feasibility.last : Feasibility F L → Snapshot F L
  | .infeasible final _ => ⟨_, final⟩
  | .feasible basis => ⟨_, basis.full⟩

namespace Tableau

/-! ## The two loops -/

section Descend

variable {phase : Phase} {eps : F} {left pivots : Nat} {s : Strategy} {x : Vector F L.columns} {t : Tableau F L m}

/-- A descent that has nothing to do reaches no tableau. -/
theorem reached_descend_of_optimal (h : t.enteringColumn? eps s.mode = none) :
    (t.descend (E := E) phase eps left pivots s x).reached = [] := by
  unfold descend
  rw [h]
  rfl

/-- What a view of the tableaux reached sees of a pivot and of what comes after it. -/
theorem gathered_descend_succ {γ : Type} {view : Event F L → Option γ}
    (hview : ∀ e : Event F L, e.reached? = none → view e = none) {j : Fin L.columns} {i : Fin m}
    (h : t.Chooses eps s.mode j i) : (t.descend (E := E) phase eps (left + 1) pivots s x).gathered view =
      [Event.pivoted phase (pivots + 1) j i (t.basic i) (t.pivot eps j i).value ⟨m, t.pivot eps j i⟩].filterMap view ++
        ((t.pivot eps j i).descend (E := E) phase eps left (pivots + 1)
          (s.afterPivot (isDegenerate eps (t.ratio j i))) (t.writeSolution x)).gathered view := by
  rw [descend, h.entering]
  simp only [h.leaving]
  rw [Journal.gathered_note_bind (hview _ rfl), Journal.gathered_bind_of_ok rfl, Journal.gathered,
    Journal.events_notes, Strategy.filterMap_switch hview, List.nil_append, Journal.gathered_bind_of_ok rfl]
  rfl

/-- A descent reaches the tableau after its first pivot and all those after it. -/
theorem reached_descend_succ {j : Fin L.columns} {i : Fin m} (h : t.Chooses eps s.mode j i) :
    (t.descend (E := E) phase eps (left + 1) pivots s x).reached = ⟨m, t.pivot eps j i⟩ ::
      ((t.pivot eps j i).descend (E := E) phase eps left (pivots + 1)
        (s.afterPivot (isDegenerate eps (t.ratio j i))) (t.writeSolution x)).reached :=
  gathered_descend_succ (fun _ he => he) h

end Descend

/-- A descent goes from pivot to pivot. -/
theorem follows_descend (phase : Phase) (eps : F) (left pivots : Nat) (s : Strategy) (x : Vector F L.columns)
    (t : Tableau F L m) : (t.descend (E := E) phase eps left pivots s x).Follows (Snapshot.PivotsTo eps)
      ⟨m, t⟩ fun d => ⟨m, d.tableau⟩ := by
  rw [descend]
  refine .note_bind rfl ?_
  rcases t.choice_cases eps s.mode with hj | ⟨j, hj, hi⟩ | ⟨j, i, hc⟩
  · rw [hj]
    exact .pure rfl
  · rw [hj]
    simp only [hi]
    exact .note_bind rfl (.pure rfl)
  · rw [hc.entering]
    simp only [hc.leaving]
    cases left with
    | zero => exact .note_bind rfl (.fail _)
    | succ left =>
      refine .bind_of_reached_eq_nil ?_ fun _ => ?_
      · exact Strategy.filterMap_switch (fun _ he => he) ..
      · exact .step_bind rfl (.intro hc) (follows_descend ..)

/-- A descent reaches one tableau with every pivot. -/
theorem pivots_eq_of_descend {phase : Phase} {eps : F} (left pivots : Nat) (s : Strategy) (x : Vector F L.columns)
    (t : Tableau F L m) {d : Descent F L m}
    (hd : (t.descend (E := E) phase eps left pivots s x).result = .ok d) :
    d.pivots = pivots + (t.descend (E := E) phase eps left pivots s x).reached.length := by
  rcases t.choice_cases eps s.mode with hj | ⟨j, hj, hi⟩ | ⟨j, i, hc⟩
  · rw [descend, hj] at hd ⊢
    cases hd
    rfl
  · rw [descend, hj] at hd ⊢
    simp only [hi] at hd ⊢
    cases hd
    rfl
  · cases left with
    | zero =>
      rw [result_descend_zero hc] at hd
      cases hd
    | succ left =>
      rw [result_descend_succ hc] at hd
      rw [reached_descend_succ hc, List.length_cons, pivots_eq_of_descend left _ _ _ _ hd]
      omega

/-- Driving out goes from exchange to exchange. -/
theorem follows_driveOut (eps : F) (limit : Nat) : ∀ (is : List (Fin m)) (pivots : Nat)
    (t : Tableau F L m), (driveOut (E := E) eps limit is pivots t).Follows (Snapshot.ExchangesTo eps)
      ⟨m, t⟩ fun out => ⟨m, out.tableau⟩
  | [], pivots, t => .pure rfl
  | i :: rest, pivots, t => by
    rw [driveOut]
    cases h : t.replacement? eps i with
    | none => exact (follows_driveOut eps limit rest pivots t).bind fun out _ => .pure rfl
    | some j =>
      by_cases hlimit : limit ≤ pivots
      · simp only [if_pos hlimit]
        exact .note_bind rfl (.fail _)
      · simp only [if_neg hlimit]
        exact .step_bind rfl (.intro h) (follows_driveOut ..)

section DriveOut

variable {eps : F} {limit pivots : Nat} {t : Tableau F L m} {i : Fin m} {rest : List (Fin m)}

/-- A row that is passed over changes nothing. -/
theorem reached_driveOut_of_none (h : t.replacement? eps i = none) :
    (driveOut (E := E) eps limit (i :: rest) pivots t).reached =
      (driveOut (E := E) eps limit rest pivots t).reached := by
  rw [driveOut, h]
  exact Journal.reached_bind_of_silent _ fun _ => rfl

/-- An exchange reaches the tableau after it, and the sweep goes on from there. -/
theorem reached_driveOut_of_some {j : Fin L.columns} (h : t.replacement? eps i = some j) (hlimit : pivots < limit) :
    (driveOut (E := E) eps limit (i :: rest) pivots t).reached = ⟨m, (t.clearLevel i).pivot eps j i⟩ ::
      (driveOut (E := E) eps limit rest (pivots + 1) ((t.clearLevel i).pivot eps j i)).reached := by
  rw [driveOut, h]
  simp only [if_neg (Nat.not_le.2 hlimit)]
  exact Journal.reached_bind_of_ok rfl _

end DriveOut

/-! ## The phases -/

variable [Tolerance F E]

/-- Nothing is seen of the sorting of the redundant rows. -/
theorem gathered_expelArtificials {γ : Type} (view : Event F L → Option γ) (options : Options E) (pivots : Nat)
    (t : Tableau F L m) : (t.expelArtificials options pivots).gathered view =
      (driveOut (E := E) (Tolerance.read options.eps) options.limit t.artificialBasics pivots t).gathered view :=
  Journal.gathered_bind_of_silent _ fun _ => rfl

/-- Driving out the artificial variables makes exchanges only. -/
theorem follows_expelArtificials (options : Options E) (pivots : Nat) (t : Tableau F L m) :
    (t.expelArtificials options pivots).Follows (Snapshot.ExchangesTo (Tolerance.read options.eps))
      ⟨m, t⟩ fun out => ⟨m, out.tableau⟩ :=
  (follows_driveOut ..).bind fun _ _ => .pure rfl

omit [Scalar F] in
/-- The event of a removal reaches no tableau. -/
theorem filterMap_removal {γ : Type} {view : Event F L → Option γ}
    (hview : ∀ e : Event F L, e.reached? = none → view e = none) (out : DrivenOut F L m) :
    out.removal.filterMap view = [] := by
  rw [DrivenOut.removal]
  split
  · rfl
  · rw [List.filterMap_cons_none (hview _ rfl), List.filterMap_nil]

/-- The first phase loads the artificial cost, pivots, and replaces artificial variables. -/
theorem trail_findFeasible (options : Options E) (x : Vector F L.columns) (t : Tableau F L L.rows) : ∃ l b,
    (t.findFeasible options x).reached = ⟨_, t.loadArtificial⟩ :: l ∧
      Trail (Snapshot.StepsInOne (Tolerance.read options.eps)) ⟨_, t.loadArtificial⟩ l b ∧
      ∀ f, (t.findFeasible options x).result = .ok f → f.last = b := by
  have hdescend := (follows_descend (E := E) .one (Tolerance.read options.eps) options.limit 0
    options.strategy x t.loadArtificial).mono (S := Snapshot.StepsInOne _) fun _ _ => Or.inl
  refine Journal.Follows.cons rfl (hdescend.bind fun d _ => ?_)
  cases d.status with
  | unbounded j => exact .fail _
  | optimal =>
    by_cases hv : (Tolerance.read options.eps : F) < d.tableau.value
    · simp only [if_pos hv]
      exact .note_bind rfl (.pure rfl)
    · simp only [if_neg hv]
      refine ((follows_expelArtificials options d.pivots d.tableau).mono fun _ _ => Or.inr).bind fun out _ => ?_
      refine .bind_of_reached_eq_nil ?_ fun _ => ?_
      · exact filterMap_removal (fun _ he => he) out
      · exact .note_bind rfl (.note_bind rfl (.pure rfl))

/-- The tableaux of a first phase that drives artificial variables out. -/
theorem reached_findFeasible_of_le {options : Options E} {x : Vector F L.columns} {t : Tableau F L L.rows}
    {d : Descent F L L.rows}
    (hd : (t.loadArtificial.descend (E := E) .one (Tolerance.read options.eps) options.limit 0
      options.strategy x).result = .ok d) (hs : d.status = .optimal)
    (hv : ¬ (Tolerance.read options.eps : F) < d.tableau.value) :
    (t.findFeasible options x).reached = ⟨_, t.loadArtificial⟩ ::
      ((t.loadArtificial.descend (E := E) .one (Tolerance.read options.eps) options.limit 0
          options.strategy x).reached ++
        (driveOut (E := E) (Tolerance.read options.eps) options.limit d.tableau.artificialBasics d.pivots
          d.tableau).reached) := by
  refine congrArg (List.cons _) ((Journal.reached_bind_of_ok hd _).trans (congrArg _ ?_))
  have hsame := gathered_expelArtificials (E := E) Event.reached? options d.pivots d.tableau
  refine Eq.trans ?_ hsame
  rw [hs]
  simp only [if_neg hv]
  refine Journal.reached_bind_of_silent _ fun out => ?_
  exact (Journal.reached_bind_of_ok rfl _).trans
    (congrArg (· ++ _) (filterMap_removal (fun _ he => he) out))

/-- The tableau in which the descent of the first phase ends is one of those reached. -/
theorem mem_reached_findFeasible {options : Options E} {x : Vector F L.columns} {t : Tableau F L L.rows}
    {d : Descent F L L.rows}
    (hd : (t.loadArtificial.descend (E := E) .one (Tolerance.read options.eps) options.limit 0
      options.strategy x).result = .ok d) : ⟨_, d.tableau⟩ ∈ (t.findFeasible options x).reached := by
  obtain ⟨b, htrail, hlast⟩ := follows_descend (E := E) .one (Tolerance.read options.eps : F) options.limit 0
    options.strategy x t.loadArtificial
  have hend : (⟨_, d.tableau⟩ : Snapshot F L) = b := hlast d hd
  rw [hend]
  rcases List.mem_cons.1 htrail.last_mem with hb | hb
  · rw [hb]
    exact List.mem_cons_self ..
  · exact List.mem_cons_of_mem _ (Journal.mem_reached_bind hb _)

/-- What a view of the tableaux reached sees of the second phase. -/
theorem gathered_improve {γ : Type} {view : Event F L → Option γ}
    (hview : ∀ e : Event F L, e.reached? = none → view e = none) (options : Options E) (direction : Direction)
    (cost : Vector F L.decision) (pivots : Nat) (x : Vector F L.columns) (t : Tableau F L m) :
    (t.improve options direction cost pivots x).gathered view =
      [Event.costLoaded (direction.orient (t.loadCost direction cost).value)
          ⟨m, t.loadCost direction cost⟩].filterMap view ++
        ((t.loadCost direction cost).descend (E := E) .two (Tolerance.read options.eps) (options.limit - pivots) pivots
          options.strategy x).gathered view := by
  refine (Journal.gathered_bind_of_ok rfl _).trans (congrArg _ (Journal.gathered_bind_of_silent _ fun d => ?_))
  obtain ⟨status, tableau, values, count⟩ := d
  cases status with
  | optimal =>
    exact (List.filterMap_cons_none (hview (.optimal _) rfl)).trans (List.filterMap_cons_none (hview (.done _) rfl))
  | unbounded j =>
    exact (List.filterMap_cons_none (hview (.unbounded j) rfl)).trans (List.filterMap_cons_none (hview (.done _) rfl))

/-- The second phase reaches the tableau with its objective, and then those of its descent. -/
theorem reached_improve (options : Options E) (direction : Direction) (cost : Vector F L.decision)
    (pivots : Nat) (x : Vector F L.columns) (t : Tableau F L m) :
    (t.improve options direction cost pivots x).reached = ⟨m, t.loadCost direction cost⟩ ::
      ((t.loadCost direction cost).descend (E := E) .two (Tolerance.read options.eps)
        (options.limit - pivots) pivots options.strategy x).reached :=
  gathered_improve (fun _ he => he) ..

/-- The second phase loads the cost of the program and makes its pivots. -/
theorem trail_improve (options : Options E) (direction : Direction) (cost : Vector F L.decision)
    (pivots : Nat) (x : Vector F L.columns) (t : Tableau F L m) : ∃ l b,
    (t.improve options direction cost pivots x).reached = ⟨m, t.loadCost direction cost⟩ :: l ∧
      Trail (Snapshot.PivotsTo (Tolerance.read options.eps)) ⟨m, t.loadCost direction cost⟩ l b ∧
      ∀ o, (t.improve options direction cost pivots x).result = .ok o →
        o.final = b ∧ o.pivots.phaseTwo = l.length := by
  obtain ⟨b, htrail, hlast⟩ := follows_descend (E := E) .two (Tolerance.read options.eps : F)
    (options.limit - pivots) pivots options.strategy x (t.loadCost direction cost)
  refine ⟨_, b, reached_improve .., htrail, ?_⟩
  intro o ho
  rw [result_improve_eq] at ho
  cases hd : ((t.loadCost direction cost).descend (E := E) .two (Tolerance.read options.eps)
    (options.limit - pivots) pivots options.strategy x).result with
  | error e => rw [hd] at ho; cases ho
  | ok d =>
    rw [hd] at ho
    cases ho
    refine ⟨hlast d hd, ?_⟩
    show d.pivots - pivots = _
    rw [pivots_eq_of_descend _ _ _ _ _ hd, Nat.add_sub_cancel_left]

/-- Both phases reach what the first one reaches, and then what the second one does. -/
theorem reached_runPhases_of_feasible {options : Options E} {direction : Direction}
    {cost : Vector F L.decision} {t : Tableau F L L.rows} {basis : FeasibleBasis F L}
    (hf : (t.findFeasible options (Vector.replicate _ 0)).result = .ok (.feasible basis)) :
    (t.runPhases options direction cost).reached = (t.findFeasible options (Vector.replicate _ 0)).reached ++
      (basis.tableau.improve options direction cost basis.pivots basis.values).reached := by
  rw [runPhases, Journal.reached_bind_of_ok hf]

/-- Both phases, one after the other. -/
theorem trail_runPhases (options : Options E) (direction : Direction) (cost : Vector F L.decision)
    (t : Tableau F L L.rows) : ∃ l b,
    (t.runPhases options direction cost).reached = ⟨_, t.loadArtificial⟩ :: l ∧
      Trail (Snapshot.StepsTo (Tolerance.read options.eps) direction cost) ⟨_, t.loadArtificial⟩ l b := by
  obtain ⟨l, b, hreached, htrail, hlast⟩ := t.trail_findFeasible options (Vector.replicate _ 0)
  have hone := htrail.mono (S := Snapshot.StepsTo _ direction cost) fun _ _ => Or.inl
  cases hf : (t.findFeasible options (Vector.replicate _ 0)).result with
  | error e =>
    refine ⟨l, b, ?_, hone⟩
    rw [runPhases, Journal.reached_bind_of_error hf, hreached]
  | ok f =>
    rw [runPhases, Journal.reached_bind_of_ok hf, hreached]
    cases f with
    | infeasible final pivots => exact ⟨l ++ [], b, rfl, by rw [List.append_nil]; exact hone⟩
    | feasible basis =>
      obtain ⟨l', b', hreached', htrail', -⟩ :=
        basis.tableau.trail_improve options direction cost basis.pivots basis.values
      have hover : Snapshot.StepsTo (Tolerance.read options.eps) direction cost b
          ⟨_, basis.tableau.loadCost direction cost⟩ := by
        rw [← hlast _ hf]
        exact Or.inr (.intro basis)
      refine ⟨l ++ _, b', by rw [hreached', List.cons_append], ?_⟩
      exact hone.append (.cons hover (htrail'.mono fun _ _ => Or.inl ∘ Or.inl))

end Tableau

end Simplex
