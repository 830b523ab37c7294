/-
Models: linear programs with rows of any relation and columns of any
bounds, as they are built and edited.

Rows and columns are numbered from zero here.  In `element?` and
`setElement?` row 0 is the cost and the rows come after it.
-/
import LinProg.Relation
import LinProg.Sparse

namespace LinProg

/-- A constraint of a model. -/
structure Row (α : Type) where
  coefficients : Sparse α
  relation : Relation
  rightHandSide : α
  /-- The width of the interval that the row may take, if it has one. -/
  range : Option α
  name : Option String
deriving DecidableEq

/-- A variable of a model. -/
structure Column (α : Type) where
  lower : α
  upper : α
  name : Option String
deriving DecidableEq

structure Model (α : Type) where
  sense : Sense
  cost : Sparse α
  rows : List (Row α)
  columns : List (Column α)
deriving DecidableEq

namespace Row

variable {α : Type} [Scalar α]

def plain (coefficients : Sparse α) (relation : Relation) (rightHandSide : α) : Row α :=
  ⟨coefficients, relation, rightHandSide, none, none⟩

/-- The empty row `0 ≤ 0`. -/
def empty : Row α := plain [] .less 0

def put (column : Nat) (x : α) (r : Row α) : Row α :=
  { r with coefficients := r.coefficients.set column x }

end Row

namespace Column

variable {α : Type} [Scalar α]

/-- A column that takes the values from zero to infinity. -/
def nonnegative (infinity : α) : Column α := ⟨0, infinity, none⟩

end Column

namespace Model

variable {α : Type} [Scalar α]

/-- A model of empty rows and nonnegative columns, to be minimised. -/
def blank (rows columns : Nat) (infinity : α) : Model α :=
  { sense := .minimize
    cost := []
    rows := List.replicate rows Row.empty
    columns := List.replicate columns (Column.nonnegative infinity) }

def nrRows (m : Model α) : Nat := m.rows.length

def nrColumns (m : Model α) : Nat := m.columns.length

/-- The number of coefficients that the constraints store. -/
def nrNonzeros (m : Model α) : Nat := m.rows.foldr (fun r n => r.coefficients.length + n) 0

def count (relation : Relation) (m : Model α) : Nat :=
  m.rows.countP fun r => r.relation = relation

/-- The coefficient at a position, if the row exists. -/
def element? (row column : Nat) (m : Model α) : Option α :=
  match row with
  | 0 => some (m.cost.get column)
  | i + 1 => m.rows[i]?.map fun r => r.coefficients.get column

/-- The cost of a column followed by its coefficient in each row. -/
def columnValues (column : Nat) (m : Model α) : List α :=
  m.cost.get column :: m.rows.map fun r => r.coefficients.get column

end Model

end LinProg
