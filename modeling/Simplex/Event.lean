/-
  What happens during a run, and how it is reported.

  An event carries what it is about: columns, rows, counts, and the tableau reached, if one was.  The report of
  an event is one message at the level of the event; a tableau just loaded or reached by a pivot of a phase is
  then written out at the most detailed level.  That the solution was written down is not reported.

  * `Event.reached?` — the tableau the event led to, for every change of a tableau;
  * `Event.shown?` — the tableau that is written out after the message.  The pivots that replace artificial
    variables at level zero reach a tableau that is not written out;
  * `Event.buffer` — what the buffer for the solution holds after the event.
-/
import Simplex.Error
import Simplex.Tableau.Display

namespace Simplex

/-! ## Levels -/

/-- How important a message is. -/
inductive Level where
  | warn
  | info
  | debug
  | trace
  deriving DecidableEq, Repr

namespace Level

/-- Less important levels have a higher rank. -/
def rank : Level → Nat
  | warn => 0
  | info => 1
  | debug => 2
  | trace => 3

/-- The word in front of a message. -/
def word : Level → String
  | warn => "WARN"
  | info => "INFO"
  | debug => "DEBUG"
  | trace => "TRACE"

end Level

/-! ## Events -/

/-- A tableau with any number of rows. -/
structure Snapshot (F : Type) (L : Layout) where
  rows : Nat
  tableau : Tableau F L rows

/-- Something that happened to a tableau with the columns of `L`. -/
inductive Event (F : Type) (L : Layout) where
  /-- The program was brought into tableau form. -/
  | derived
  /-- A run begins on a tableau with so many rows. -/
  | solving (rows : Nat)
  /-- The artificial cost became the objective. -/
  | artificialLoaded (reached : Snapshot F L)
  /-- The cost of the program became the objective, with the given value at the basis reached so far. -/
  | costLoaded (value : F) (reached : Snapshot F L)
  /-- The solution of the basis was written down, a value for every column. -/
  | written (values : Vector F L.columns)
  /-- A column of negative relative cost meets no row that limits it. -/
  | unlimited (phase : Phase) (column : Fin L.columns) (cost : F)
  /-- The allowed number of pivots is used up. -/
  | stopped (phase : Phase) (pivots : Nat)
  /-- So many degenerate pivots in a row made the strategy careful. -/
  | turnedCareful (streak : Nat)
  /-- A pivot that made progress made the strategy greedy again. -/
  | turnedGreedy
  /-- The `number`-th pivot: a column entered and another one left. -/
  | pivoted (phase : Phase) (number : Nat) (entering : Fin L.columns) (row : Nat)
      (leaving : Fin L.columns) (value : F) (reached : Snapshot F L)
  /-- An artificial variable at level zero was replaced. -/
  | replaced (entering : Fin L.columns) (row : Nat) (leaving : Fin L.columns)
      (reached : Snapshot F L)
  /-- The artificial variables can not all be zero. -/
  | infeasible (value : F)
  /-- Rows that follow from the others are removed. -/
  | removing (rows : List Nat)
  /-- A feasible basis was found. -/
  | feasible (pivots : Nat)
  /-- The optimal value was found. -/
  | optimal (value : F)
  /-- The objective improves without end along a column. -/
  | unbounded (column : Fin L.columns)
  /-- The run is over. -/
  | done (pivots : Nat)

namespace Event

variable {F : Type} {L : Layout}

/-- The tableau the event led to. -/
def reached? : Event F L → Option (Snapshot F L)
  | artificialLoaded s => some s
  | costLoaded _ s => some s
  | pivoted _ _ _ _ _ _ s => some s
  | replaced _ _ _ s => some s
  | _ => none

/-- The tableau that is written out after the message. -/
def shown? : Event F L → Option (Snapshot F L)
  | replaced .. => none
  | e => e.reached?

/-- What the buffer for the solution holds after the event, if it held `x` before. -/
def buffer (x : Vector F L.columns) : Event F L → Vector F L.columns
  | written values => values
  | _ => x

/-- The level of the message, if there is one. -/
def level? : Event F L → Option Level
  | written .. => none
  | stopped .. => some .warn
  | derived | unlimited .. | turnedCareful .. | turnedGreedy | pivoted .. | replaced .. => some .debug
  | _ => some .info

variable [Scalar F] [Numeral F]

/-- The message. -/
def message : Event F L → String
  | derived =>
    s!"Derived a tableau with {L.rows} rows ({L.less} <=, {L.greater} >=, {L.equal} =)" ++
      s!" and {L.columns} columns"
  | solving rows =>
    s!"Solving with {rows} rows and {L.columns} columns, of which {L.artificials} artificial"
  | artificialLoaded s =>
    s!"{Phase.one.name}: {L.artificials} artificial variables with total value " ++
      Numeral.text s.tableau.value
  | costLoaded value _ =>
    s!"{Phase.two.name}: starting from objective value {Numeral.text value}"
  | written .. => "" -- has no level, so it is not shown
  | unlimited phase j cost =>
    s!"{phase.name}: column {L.label j} has relative cost {Numeral.text cost}" ++
      " and no positive entries"
  | stopped phase n => s!"{phase.name}: stopping after {n} pivots"
  | turnedCareful streak =>
    s!"{streak} consecutive degenerate pivots, switching to Bland's rule"
  | turnedGreedy => "Nondegenerate pivot, switching back to Dantzig's rule"
  | pivoted phase n entering row leaving value _ =>
    s!"{phase.name} iteration {n}: {L.label entering} enters in row {row}, " ++
      s!"{L.label leaving} leaves, objective {Numeral.text value}"
  | replaced entering row leaving _ =>
    s!"{Phase.one.name}: {L.label entering} replaces {L.label leaving}" ++
      s!" at zero level in row {row}"
  | infeasible value =>
    s!"{Phase.one.name}: minimal artificial value {Numeral.text value} > 0, infeasible"
  | removing rows =>
    s!"{Phase.one.name}: removing redundant rows [" ++
      ", ".intercalate (rows.map fun i => s!"{i}") ++ "]"
  | feasible n => s!"{Phase.one.name}: feasible after {n} pivots"
  | optimal value => s!"{Phase.two.name}: optimal with objective value {Numeral.text value}"
  | unbounded j => s!"{Phase.two.name}: unbounded along {L.label j}"
  | done n => s!"Done after {n} pivots"

/-- The report of the event, for a reader who wants everything up to the given level. -/
def report (verbosity : Level) (e : Event F L) : List String :=
  let own := (e.level?.toList.filter fun level => level.rank ≤ verbosity.rank).map fun level =>
    level.word ++ " " ++ e.message
  let table :=
    if verbosity = .trace then
      e.shown?.toList.map fun s =>
        Level.trace.word ++ " " ++ s.tableau.display Tableau.defaultPlaces
    else []
  own ++ table

end Event

end Simplex
