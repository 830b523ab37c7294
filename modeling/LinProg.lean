import LinProg.Engine.Display
import LinProg.Solver.Step
import LinProg.Tableau.Display
import LinProg.Proofs.Dense
import LinProg.Proofs.Tableau.Rows
import LinProg.Proofs.Tableau.Canonical
import LinProg.Proofs.Tableau.Choice
import LinProg.Proofs.Tableau.Descent
import LinProg.Proofs.Tableau.Bland
import LinProg.Proofs.Tableau.Solutions
import LinProg.Proofs.StandardForm.Basic
import LinProg.Proofs.Tableau.Start
import LinProg.Proofs.Simplex.Descend
import LinProg.Proofs.Tableau.Cost
import LinProg.Proofs.Tableau.Artificial
import LinProg.Proofs.Simplex.FirstPhase
import LinProg.Proofs.Simplex.SecondPhase
import LinProg.Proofs.Sparse
import LinProg.Proofs.Lookup
import LinProg.Proofs.StandardForm.Layout
import LinProg.Proofs.Model.Feasible
import LinProg.Proofs.StandardForm.Variables
import LinProg.Proofs.StandardForm.Conversion
import LinProg.Proofs.Simplex.Termination
import LinProg.Proofs.Engine.Verdict
import LinProg.Proofs.StandardForm.Prices
import LinProg.Proofs.StandardForm.Certificate
import LinProg.Proofs.Engine.Certificate
import LinProg.Proofs.Model.Canonical
import LinProg.Proofs.Engine.Canonical
import LinProg.Proofs.Engine.Accepted
import LinProg.Proofs.Reading
import LinProg.Proofs.Formula
import LinProg.Proofs.Solver.Denotation
import LinProg.Proofs.Model.Names
import LinProg.Proofs.Model.Sheet
import LinProg.Proofs.Engine.Sheet
import LinProg.Proofs.Simplex.Pivots
import LinProg.Proofs.Engine.Translation
import LinProg.Proofs.Engine.Outcome
import LinProg.Proofs.Simplex.Tolerance
import LinProg.Proofs.Engine.Tolerance
import LinProg.Proofs.Engine.Sensitivity
import LinProg.Proofs.Access.Basic
import LinProg.Proofs.Access.Sparse
import LinProg.Proofs.Access.Model
import LinProg.Proofs.Access.Conversion
import LinProg.Proofs.Access.Tableau
import LinProg.Proofs.Access.Pivot
import LinProg.Proofs.Access.Simplex
import LinProg.Proofs.Access.Translation
import LinProg.Proofs.Access.Reads
import LinProg.Proofs.Access.Edits
import LinProg.Proofs.Access.Engine
import LinProg.Proofs.Solver.Rejected
import LinProg.Proofs.Scalar.Ranked
import LinProg.Proofs.Scalar.Binary64
import LinProg.Proofs.Engine.Bounds
import LinProg.Proofs.Engine.Infinity
import LinProg.Proofs.Engine.Feasibility
import LinProg.Proofs.Solver.Bulk
import LinProg.Proofs.Simplex.Questions
import LinProg.Proofs.Simplex.Interruption
import LinProg.Proofs.Engine.Abort
import LinProg.Proofs.Engine.Opposite
import LinProg.Proofs.Solver.Growth
import LinProg.Proofs.Workspace
import LinProg.Proofs.Simplex.Trail
import LinProg.Proofs.Simplex.Represented
import LinProg.Proofs.Model.Determined
import LinProg.Proofs.Engine.Dense
import LinProg.Proofs.Engine.Table
import LinProg.Proofs.Text.Grammar
import LinProg.Proofs.Engine.RoundTrip
import LinProg.Proofs.Tableau.RatioTest
import LinProg.Proofs.Simplex.Visits
import LinProg.Proofs.Simplex.Bookkeeping
import LinProg.Proofs.Simplex.RelativeCosts
import LinProg.Proofs.StandardForm.Dependent
import LinProg.Proofs.Simplex.Redundancy
import LinProg.Proofs.Sparse.Merging
import LinProg.Proofs.Sparse.Writing
import LinProg.Proofs.StandardForm.Prepared
