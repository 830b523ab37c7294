/-
Solvers: engines whose rows are written as symbolic expressions.

An expression is laid out in the workspace of the solver and handed to
the engine as a listing.  The answer of the engine is passed on; an
expression with column 0, and a row or column that does not exist, are
errors, on which neither the engine nor the workspace is touched.
-/
import LinProg.Constraint
import LinProg.Engine.Edit
import LinProg.Workspace

namespace LinProg

/-- An engine with a workspace for expressions. -/
structure Solver (α : Type) where
  engine : Engine α
  workspace : Workspace α

namespace Solver

variable {α : Type} [Scalar α]

/-- Whether the engine accepted something, or why it was not asked. -/
abbrev Answer := Except Error Bool

def create (rows columns : Nat) (config : Config α) : Solver α :=
  ⟨Engine.create rows columns config, Workspace.empty⟩

/-- That a row exists. -/
def checkRow (s : Solver α) (row : Nat) : Except Error Unit :=
  if 1 ≤ row ∧ row ≤ s.engine.nrRows then .ok ()
  else .error (.rowOutOfRange row s.engine.nrRows)

def checkColumn (s : Solver α) (column : Nat) : Except Error Unit :=
  if 1 ≤ column ∧ column ≤ s.engine.nrColumns then .ok ()
  else .error (.columnOutOfRange column s.engine.nrColumns)

/-- That a position exists; row 0 is the objective. -/
def checkElement (s : Solver α) (row column : Nat) : Except Error Unit := do
  if row ≠ 0 then s.checkRow row
  s.checkColumn column

/-- Let the engine try an edit. -/
def perform (s : Solver α) (edit : Engine.Edit α) : Answer × Solver α :=
  let (accepted, engine) := s.engine.perform edit
  (.ok accepted, { s with engine })

/-- Let the engine try an edit if a check is passed. -/
def performIf (s : Solver α) (check : Except Error Unit) (edit : Engine.Edit α) :
    Answer × Solver α :=
  match check with
  | .error error => (.error error, s)
  | .ok () => s.perform edit

/-- Let the engine try an edit with an expression, which is laid out first. -/
def performWith (s : Solver α) (e : Expr α) (edit : Listing α → Engine.Edit α) :
    Answer × Solver α :=
  match s.workspace.layOut e with
  | .error error => (.error error, s)
  | .ok workspace => { s with workspace }.perform (edit (workspace.listing e.length))

def addConstraint (s : Solver α) (c : Constraint α) : Answer × Solver α :=
  s.performWith c.expression fun l => .appendConstraint l c.relation c.rightHandSide

def setRow (s : Solver α) (row : Nat) (e : Expr α) : Answer × Solver α :=
  match s.checkRow row with
  | .error error => (.error error, s)
  | .ok () => s.performWith e (.setRow row)

def setObjective (s : Solver α) (e : Expr α) : Answer × Solver α :=
  s.performWith e .setObjective

def deleteColumn (s : Solver α) (column : Nat) : Answer × Solver α :=
  s.performIf (s.checkColumn column) (.deleteColumn column)

def deleteConstraint (s : Solver α) (row : Nat) : Answer × Solver α :=
  s.performIf (s.checkRow row) (.deleteConstraint row)

def element (s : Solver α) (row column : Nat) : Except Error α := do
  s.checkElement row column
  return (s.engine.element? row column).getD 0

def setElement (s : Solver α) (row column : Nat) (x : α) : Answer × Solver α :=
  s.performIf (s.checkElement row column) (.setElement row column x)

/-- Limit a multiple of a variable from above by a new row. -/
def limitColumn (s : Solver α) (column : Nat) (factor bound : α) : Answer × Solver α :=
  match s.checkColumn column with
  | .error error => (.error error, s)
  | .ok () => s.addConstraint (((Expr.var column).scale factor).lessOrEqual bound)

end Solver

end LinProg
