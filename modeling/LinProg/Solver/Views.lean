/-
Views of a solver: a row, a column and the outcome of the latest solve,
as they stand at the moment of asking; and the edits of a single row or
column.
-/
import LinProg.Solver.Basic

namespace LinProg

/-- A row as its readers see it. -/
structure RowView (α : Type) where
  index : Nat
  values : List α
  /-- The nonzero coefficients, columns numbered from one. -/
  sparse : Sparse α
  name : String
  relation : Relation
  rightHandSide : α
  range : Option α
  dual : Option α
deriving DecidableEq

/-- A column as its readers see it. -/
structure ColumnView (α : Type) where
  index : Nat
  /-- The cost followed by the coefficient in each row. -/
  values : List α
  /-- The nonzero ones of these; row 0 is the objective. -/
  sparse : Sparse α
  name : String
  lower : α
  upper : α
  isUnbounded : Bool
  isNegative : Bool
  value : Option α
  reducedCost : Option α
deriving DecidableEq

inductive RowEdit (α : Type) where
  | values (e : Expr α)
  | dense (values : List α)
  | name (name : String)
  | relation (relation : Relation)
  | rightHandSide (x : α)
  | range (width : α)

inductive ColumnEdit (α : Type) where
  | dense (values : List α)
  | listing (l : Listing α)
  | name (name : String)
  | bounds (lower upper : α)
  | lower (lower : α)
  | upper (upper : α)
  | unbounded

namespace ColumnEdit

variable {α : Type}

/-- The engine's edit for an edit of a column. -/
def toEdit (column : Nat) : ColumnEdit α → Engine.Edit α
  | dense xs => .setColumnDense column xs
  | listing l => .setColumn column l
  | name text => .setColumnName column text
  | bounds a b => .setBounds column a b
  | lower a => .setLower column a
  | upper b => .setUpper column b
  | unbounded => .setUnbounded column

end ColumnEdit

namespace Solution

variable {α : Type}

/-- The values of the rows, of which there are `rows`. -/
def activities (rows : Nat) (s : Solution α) : List α := (s.primal.drop 1).take rows

/-- The values of the variables of a model with `rows` rows. -/
def values (rows : Nat) (s : Solution α) : List α := s.primal.drop (1 + rows)

end Solution

namespace Solver

variable {α : Type} [Scalar α]

/-! ## Values of the latest solution -/

def value? (s : Solver α) (column : Nat) : Option α :=
  match column with
  | 0 => none
  | j + 1 => s.engine.solution.bind fun o => (o.values s.engine.nrRows)[j]?

def dual? (s : Solver α) (row : Nat) : Option α :=
  s.engine.solution.bind fun o => o.duals[row - 1]?

def reducedCost? (s : Solver α) (column : Nat) : Option α :=
  s.engine.solution.bind fun o => o.reducedCosts[column - 1]?

/-- A primal value by its place: the objective, the rows, the columns. -/
def primal? (s : Solver α) (place : Nat) : Option α :=
  s.engine.solution.bind fun o => o.primal[place]?

/-! ## Rows and columns -/

def row (s : Solver α) (row : Nat) : Except Error (RowView α) :=
  match s.engine.row? row, s.engine.rowValues? row, s.engine.rowName? row with
  | some r, some values, some name =>
      .ok
        { index := row
          values
          sparse := Sparse.ofDense 1 values
          name
          relation := r.relation
          rightHandSide := r.rightHandSide
          range := r.range
          dual := s.dual? row }
  | _, _, _ => .error (.rowOutOfRange row s.engine.nrRows)

def column (s : Solver α) (column : Nat) : Except Error (ColumnView α) :=
  match s.engine.column? column, s.engine.columnValues? column, s.engine.columnName? column with
  | some c, some values, some name =>
      .ok
        { index := column
          values
          sparse := Sparse.ofDense 0 values
          name
          lower := c.lower
          upper := c.upper
          isUnbounded := s.engine.isUnbounded column
          isNegative := s.engine.isNegative column
          value := s.value? column
          reducedCost := s.reducedCost? column }
  | _, _, _ => .error (.columnOutOfRange column s.engine.nrColumns)

def editRow (s : Solver α) (row : Nat) (edit : RowEdit α) : Answer × Solver α :=
  match edit with
  | .values e => s.setRow row e
  | .dense values => s.performIf (s.checkRow row) (.setRowDense row values)
  | .name name => s.performIf (s.checkRow row) (.setRowName row name)
  | .relation relation => s.performIf (s.checkRow row) (.setRelation row relation)
  | .rightHandSide x => s.performIf (s.checkRow row) (.setRightHandSide row x)
  | .range width => s.performIf (s.checkRow row) (.setRange row width)

def editColumn (s : Solver α) (column : Nat) (edit : ColumnEdit α) : Answer × Solver α :=
  s.performIf (s.checkColumn column) (edit.toEdit column)

end Solver

end LinProg
