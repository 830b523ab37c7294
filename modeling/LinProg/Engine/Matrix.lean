/-
Reading and editing the matrix of an engine: its objective, its rows and
its columns, sparse or dense or as text.

An edit has no result when the engine refuses it.  The rows and columns
that an edit names must exist, and while rows are being added the matrix
changes only by more rows and another objective.
-/
import LinProg.Engine.Basic
import LinProg.Listing
import LinProg.Text.Numbers

namespace LinProg

namespace Engine

variable {α : Type} [Scalar α]

/-! ## Rows and the objective -/

/-- The coefficients of a row listed by column. -/
def readRow? (e : Engine α) (l : Listing α) : Option (Sparse α) := l.read? 1 e.nrColumns 1

def appendConstraint? (e : Engine α) (l : Listing α) (relation : Relation) (rightHandSide : α) :
    Option (Engine α) := do
  let v ← e.readRow? l
  return e.withModel (e.model.pushRow (Row.plain v relation rightHandSide))

def setRow? (e : Engine α) (row : Nat) (l : Listing α) : Option (Engine α) := do
  guard (e.rowMode = false)
  let i ← e.rowIndex? row
  let v ← e.readRow? l
  return e.withModel (← e.model.modifyRow? i fun r => { r with coefficients := v })

def setObjective? (e : Engine α) (l : Listing α) : Option (Engine α) := do
  let v ← e.readRow? l
  return e.withModel { e.model with cost := v }

/-- The coefficients of a row by column; row 0 is the objective. -/
def rowValues? (e : Engine α) (row : Nat) : Option (List α) :=
  match row with
  | 0 => some (e.model.cost.toDense e.nrColumns)
  | row => (e.row? row).map fun r => r.coefficients.toDense e.nrColumns

def deleteConstraint? (e : Engine α) (row : Nat) : Option (Engine α) := do
  guard (e.rowMode = false)
  let i ← e.rowIndex? row
  return e.withModel (e.model.deleteRow i)

/-! ## Columns -/

/-- Take the cost, which has index 0, off a column; the values of the rows are numbered from 0
then. -/
def splitCost : Sparse α → α × Sparse α
  | (0, cost) :: rest => (cost, rest.map fun (i, x) => (i - 1, x))
  | v => (0, v.map fun (i, x) => (i - 1, x))

def readColumn? (e : Engine α) (l : Listing α) : Option (α × Sparse α) :=
  (l.read? 0 e.nrRows 0).map splitCost

/-- Add a nonnegative variable after the others. -/
def appendColumn? (e : Engine α) (l : Listing α) : Option (Engine α) := do
  guard (e.rowMode = false)
  let (cost, values) ← e.readColumn? l
  return e.withModel (← e.model.pushColumn? cost values (Column.nonnegative e.config.infinity))

def setColumn? (e : Engine α) (column : Nat) (l : Listing α) : Option (Engine α) := do
  guard (e.rowMode = false)
  let j ← e.columnIndex? column
  let (cost, values) ← e.readColumn? l
  return e.withModel (e.model.setColumn j cost values)

/-- The cost of a column followed by its coefficient in each row. -/
def columnValues? (e : Engine α) (column : Nat) : Option (List α) := do
  let j ← e.columnIndex? column
  return e.model.columnValues j

def deleteColumn? (e : Engine α) (column : Nat) : Option (Engine α) := do
  guard (e.rowMode = false)
  let j ← e.columnIndex? column
  return e.withModel (e.model.deleteColumn j)

/-! ## Elements -/

/-- The coefficient at a position; row 0 is the objective. -/
def element? (e : Engine α) (row column : Nat) : Option α := do
  let j ← e.columnIndex? column
  e.model.element? row j

def setElement? (e : Engine α) (row column : Nat) (x : α) : Option (Engine α) := do
  guard (e.rowMode = false)
  let j ← e.columnIndex? column
  return e.withModel (← e.model.setElement? row j x)

/-! ## Dense vectors and text

A dense row has one value for each column, and a dense column its cost and one value for each row.
A text lists the values of a dense one. -/

def appendConstraintDense? (e : Engine α) (values : List α) (relation : Relation)
    (rightHandSide : α) : Option (Engine α) :=
  e.appendConstraint? (Listing.ofDense 1 values) relation rightHandSide

def appendConstraintText? (e : Engine α) (text : String) (relation : Relation)
    (rightHandSide : α) : Option (Engine α) := do
  e.appendConstraintDense? (← Text.numbers? text) relation rightHandSide

def setRowDense? (e : Engine α) (row : Nat) (values : List α) : Option (Engine α) :=
  e.setRow? row (Listing.ofDense 1 values)

def setObjectiveDense? (e : Engine α) (values : List α) : Option (Engine α) :=
  e.setObjective? (Listing.ofDense 1 values)

def setObjectiveText? (e : Engine α) (text : String) : Option (Engine α) := do
  e.setObjectiveDense? (← Text.numbers? text)

def appendColumnDense? (e : Engine α) (values : List α) : Option (Engine α) :=
  e.appendColumn? (Listing.ofDense 0 values)

def appendColumnText? (e : Engine α) (text : String) : Option (Engine α) := do
  e.appendColumnDense? (← Text.numbers? text)

def setColumnDense? (e : Engine α) (column : Nat) (values : List α) : Option (Engine α) :=
  e.setColumn? column (Listing.ofDense 0 values)

end Engine

end LinProg
