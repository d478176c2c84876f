import Simplex.Decimal.Numeral
import Simplex.Scalar
import Simplex.Relation
import Simplex.Layout
import Simplex.Error
import Simplex.Pick
import Simplex.Tableau.Pivot
import Simplex.Tableau.Ratio
import Simplex.Tableau.Objective
import Simplex.Tableau.Removal
import Simplex.Tableau.Display
import Simplex.Journal
import Simplex.Program
import Simplex.Event
import Simplex.StandardForm
import Simplex.Strategy
import Simplex.Options
import Simplex.Descent
import Simplex.Feasibility
import Simplex.Solve
import Simplex.Session
import Simplex.Proofs.Exact
import Simplex.Proofs.LawfulScalar
import Simplex.Proofs.Equations
import Simplex.Proofs.Canonical
import Simplex.Proofs.Presentation
import Simplex.Proofs.Resolution
import Simplex.Proofs.Descent
import Simplex.Proofs.Truncation
import Simplex.Proofs.Reached
import Simplex.Proofs.Bland
import Simplex.Proofs.Loading
import Simplex.Proofs.Expulsion
import Simplex.Proofs.Rows
import Simplex.Proofs.Meaning
import Simplex.Proofs.Phases
import Simplex.Proofs.StandardForm
import Simplex.Proofs.Termination
import Simplex.Proofs.Soundness
import Simplex.Proofs.Oversteps
import Simplex.Proofs.Pricing
import Simplex.Proofs.ArtificialCost
import Simplex.Proofs.Drift
import Simplex.Proofs.Exclusion
import Simplex.Proofs.Representation
import Simplex.Proofs.Duality
import Simplex.Proofs.Completion
import Simplex.Proofs.Fallback
import Simplex.Proofs.Uniqueness
import Simplex.Proofs.Contract
import Simplex.Proofs.Evidence
import Simplex.Proofs.Transformation
import Simplex.Proofs.RatioTest
import Simplex.Proofs.ZeroLevel
import Simplex.Proofs.Redundancy
import Simplex.Proofs.Objective
import Simplex.Proofs.Acceptance
import Simplex.Proofs.Rewording
import Simplex.Proofs.Modes
import Simplex.Proofs.Placement
import Simplex.Proofs.Survivors
