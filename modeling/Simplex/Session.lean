/-
  Working a tableau by hand.

  A session holds a tableau, a strategy, and what was chosen so far: a column, a row, and the record of the
  pivots made.  Commands look at the tableau or change it; each is answered by a reply or refused.

  * A command that needs a chosen column or row may name it; otherwise the one chosen last is taken, the column
    being looked up before the row.  If nothing was chosen, the command is refused and changes nothing.
  * A command with a row or column outside the tableau is refused, and ends the session.  So does one that
    needs all rows of the layout, after some of them were removed.
  * A run that fails is refused with its error and changes nothing; a run that succeeds leaves its last tableau
    in the session.
-/
import Simplex.Solve

namespace Simplex

/-! ## State -/

/-- The pivots made by hand: how many, and how far the last one went. -/
structure PivotRecord (F : Type) where
  count : Nat
  lastStep : Option F

/-- Before any pivot. -/
def PivotRecord.empty {F : Type} : PivotRecord F := ⟨0, none⟩

/-- After one more pivot. -/
def PivotRecord.add {F : Type} (r : PivotRecord F) (step : F) : PivotRecord F :=
  ⟨r.count + 1, some step⟩

/-- A tableau under work. -/
structure Session (F : Type) (L : Layout) where
  rows : Nat
  tableau : Tableau F L rows
  strategy : Strategy
  column : Option Nat
  row : Option Nat
  record : PivotRecord F

/-! ## Commands, replies, refusals -/

/-- What can be asked of a session. -/
inductive Command (F E : Type) where
  | loadArtificial
  | loadCost (direction : Direction) (cost : List F)
  | useRule (rule : PivotRule) (threshold : Nat)
  | selectColumn (eps : E)
  | selectRow (column : Option Nat) (eps : E) (tie : Option TieBreak)
  | pivot (column row : Option Nat) (eps : E)
  | afterPivot (eps : E) (step : Option F)
  | check
  | inspectColumn (column : Nat)
  | inspectRow (row : Nat)
  | inspectCell (row column : Nat)
  | display (places : Option Nat)
  | inspect
  | solve (direction : Direction) (cost : List F) (options : Options E)

/-- What a session answers. -/
inductive Reply (F : Type) (L : Layout) where
  | tableau (state : Snapshot F L)
  | strategy (tie : TieBreak) (fallingBack : Option Bool)
  | entering (choice : Option (Fin L.columns × F))
  | leaving (row : Option Nat)
  | pivoted (leaving : Fin L.columns) (state : Snapshot F L)
  | updated (degenerate : Bool) (tie : TieBreak) (fallingBack : Option Bool)
  | fine
  | column (column : Fin L.columns) (state : Snapshot F L)
  | row (basic : Fin L.columns) (level : F) (cells : List F)
  | cell (value : F)
  | text (text : String)
  | solved (outcome : Outcome F L)

/-- Why a session does not do what it was asked. -/
inductive Refusal (F E : Type) where
  /-- No column or no row was chosen. -/
  | noSelection
  /-- A row or column is outside the tableau. -/
  | outOfRange
  /-- A run failed. -/
  | failed (error : SolveError F E)

/-- A session can go on after any other refusal. -/
def Refusal.endsSession {F E : Type} : Refusal F E → Bool
  | outOfRange => true
  | _ => false

namespace Session

variable {F E : Type} {L : Layout} [Scalar F] [Tolerance F E]

/-- Begin to work on a tableau. -/
def start (t : Tableau F L L.rows) : Session F L where
  rows := L.rows
  tableau := t
  strategy := Options.standard.strategy
  column := none
  row := none
  record := .empty

/-- The tableau as it is now. -/
def snapshot (s : Session F L) : Snapshot F L := ⟨s.rows, s.tableau⟩

/-- An index below `n`. -/
def index (n i : Nat) : Except (Refusal F E) (Fin n) :=
  if h : i < n then .ok ⟨i, h⟩ else .error .outOfRange

/-- What the command names, or else what was chosen last. -/
def chosen (named held : Option Nat) : Except (Refusal F E) Nat :=
  match named.or held with
  | some i => .ok i
  | none => .error .noSelection

/-- The tableau, if it still has all rows of the layout. -/
def allRows? (s : Session F L) : Except (Refusal F E) (Tableau F L L.rows) :=
  if h : s.rows = L.rows then .ok (h ▸ s.tableau) else .error .outOfRange

/-! ## Choosing and pivoting -/

/-- Make the sum of the artificial variables the objective. -/
def loadArtificial (s : Session F L) : Except (Refusal F E) (Session F L × Reply F L) := do
  let t ← s.allRows?
  let s := { s with rows := L.rows, tableau := t.loadArtificial }
  pure (s, .tableau s.snapshot)

/-- Make the given cost of the decision variables the objective. -/
def loadCost (s : Session F L) (direction : Direction) (cost : List F) :
    Except (Refusal F E) (Session F L × Reply F L) :=
  if h : cost.length = L.decision then
    let s := { s with tableau := s.tableau.loadCost direction ⟨cost.toArray, h⟩ }
    .ok (s, .tableau s.snapshot)
  else .error .outOfRange

/-- Let the strategy choose a column. -/
def selectColumn (s : Session F L) (eps : F) : Session F L × Reply F L :=
  let j := s.tableau.enteringColumn? eps s.strategy.mode
  ({ s with column := j.map (·.val) }, .entering (j.map fun j => (j, s.tableau.cost j)))

/-- Choose a row by the ratio test. -/
def selectRow (s : Session F L) (column : Option Nat) (eps : F) (tie : Option TieBreak) :
    Except (Refusal F E) (Session F L × Reply F L) := do
  let j ← index L.columns (← chosen column s.column)
  let i := s.tableau.leavingRow? eps (tie.getD s.strategy.mode.tieBreak) j
  pure ({ s with row := i.map (·.val) }, .leaving (i.map (·.val)))

/-- Bring a column into the basis.  The step is the level of the row after the pivot. -/
def pivot (s : Session F L) (column row : Option Nat) (eps : F) :
    Except (Refusal F E) (Session F L × Reply F L) := do
  let j ← chosen column s.column
  let i ← chosen row s.row
  let j ← index L.columns j
  let i ← index s.rows i
  let t := s.tableau.pivot eps j i
  let s' := { s with tableau := t, record := s.record.add (t.level i) }
  pure (s', .pivoted (s.tableau.basic i) s'.snapshot)

/-- Tell the strategy about the last pivot, or about a pivot with the given step. -/
def afterPivot (s : Session F L) (eps : F) (step : Option F) :
    Journal (Event F L) (Refusal F E) (Session F L × Reply F L) :=
  match s.record.lastStep with
  | none => .fail .noSelection
  | some last => do
    let degenerate := isDegenerate eps (step.getD last)
    let strategy := s.strategy.afterPivot degenerate
    .notes (s.strategy.switch strategy)
    pure ({ s with strategy := strategy },
      .updated degenerate strategy.mode.tieBreak strategy.isFallingBack?)

/-- Solve a copy of the tableau, and go on from where that ends. -/
def solve (s : Session F L) (direction : Direction) (cost : List F) (options : Options E) :
    Journal (Event F L) (Refusal F E) (Session F L × Reply F L) := do
  let cost ← (s.tableau.prepare options cost).mapError .failed
  -- the run is announced before the missing rows are noticed
  let t ← .ofExcept s.allRows?
  let outcome ← (t.runPhases options direction cost).mapError .failed
  pure ({ s with rows := outcome.final.rows, tableau := outcome.final.tableau }, .solved outcome)

/-! ## Looking -/

/-- A row with its basic column and its level. -/
def inspectRow (s : Session F L) (i : Nat) : Except (Refusal F E) (Reply F L) := do
  let i ← index s.rows i
  pure (.row (s.tableau.basic i) (s.tableau.level i) (s.tableau.row i).line.cells)

/-- A cell of a row; the cell after the last column is the right-hand side. -/
def inspectCell (s : Session F L) (i j : Nat) : Except (Refusal F E) (Reply F L) := do
  let i ← index s.rows i
  let j ← index (L.columns + 1) j
  pure (.cell (if h : j.val < L.columns then s.tableau.entry i ⟨j, h⟩ else s.tableau.level i))

/-! ## One command -/

/-- Carry out a command. -/
def step [Numeral F] (s : Session F L) :
    Command F E → Journal (Event F L) (Refusal F E) (Session F L × Reply F L)
  | .loadArtificial => .ofExcept s.loadArtificial
  | .loadCost direction cost => .ofExcept (s.loadCost direction cost)
  | .useRule rule threshold =>
    let strategy := rule.start threshold
    pure ({ s with strategy := strategy },
      .strategy strategy.mode.tieBreak strategy.isFallingBack?)
  | .selectColumn eps => pure (s.selectColumn (Tolerance.read eps))
  | .selectRow column eps tie => .ofExcept (s.selectRow column (Tolerance.read eps) tie)
  | .pivot column row eps => .ofExcept (s.pivot column row (Tolerance.read eps))
  | .afterPivot eps step => s.afterPivot (Tolerance.read eps) step
  | .check => pure (s, .fine)
  | .inspectColumn j => .ofExcept ((index L.columns j).map fun j => (s, .column j s.snapshot))
  | .inspectRow i => .ofExcept ((s.inspectRow i).map (s, ·))
  | .inspectCell i j => .ofExcept ((s.inspectCell i j).map (s, ·))
  | .display places =>
    pure (s, .text (s.tableau.display (places.getD Tableau.defaultPlaces)))
  | .inspect => pure (s, .tableau s.snapshot)
  | .solve direction cost options => s.solve direction cost options

/-! ## Many commands -/

/-- What happened in a session, and the answer to each command up to one that ends it. -/
structure Transcript (F E : Type) (L : Layout) where
  events : List (Event F L)
  answers : List (Except (Refusal F E) (Reply F L))

/-- Carry out commands until one of them ends the session. -/
def run [Numeral F] : List (Command F E) → Session F L → Transcript F E L
  | [], _ => ⟨[], []⟩
  | command :: rest, s =>
    let done := s.step command
    match done.result with
    | .ok (s', reply) =>
      let later := s'.run rest
      ⟨done.events ++ later.events, .ok reply :: later.answers⟩
    | .error refusal =>
      if refusal.endsSession then ⟨done.events, [.error refusal]⟩
      else
        let later := s.run rest
        ⟨done.events ++ later.events, .error refusal :: later.answers⟩

end Session

end Simplex
