/-
Edits of the matrix of a model, by column, by row and by element.

An edit of a row that does not exist has no result.  A column index may
lie past the last column: what is written there belongs to no variable.
-/
import LinProg.Model.Basic

namespace LinProg
namespace Model

variable {α : Type} [Scalar α]

def modifyRow? (row : Nat) (f : Row α → Row α) (m : Model α) : Option (Model α) :=
  if row < m.nrRows then some { m with rows := m.rows.modify row f } else none

def modifyColumn? (column : Nat) (f : Column α → Column α) (m : Model α) : Option (Model α) :=
  if column < m.nrColumns then some { m with columns := m.columns.modify column f } else none

def pushRow (r : Row α) (m : Model α) : Model α := { m with rows := m.rows ++ [r] }

/-- Write the listed values of one column into the rows, one after the other. -/
def scatter (column : Nat) (values : Sparse α) (rows : List (Row α)) : List (Row α) :=
  values.foldl (fun rows (i, x) => rows.modify i (Row.put column x)) rows

/-- Add a variable after the others, with its cost and its values by row. -/
def pushColumn? (cost : α) (values : Sparse α) (c : Column α) (m : Model α) :
    Option (Model α) :=
  if values.Within m.nrRows then
    some { m with
      columns := m.columns ++ [c]
      cost := m.cost.set m.nrColumns cost
      rows := scatter m.nrColumns values m.rows }
  else none

/-- Write a column into the rows from index `i` on.  A row takes the next listed value when that
is listed for it, and zero otherwise. -/
def spread (column : Nat) (i : Nat) (values : Sparse α) : List (Row α) → List (Row α)
  | [] => []
  | r :: rows =>
      match values with
      | (j, x) :: rest =>
          if j = i then r.put column x :: spread column (i + 1) rest rows
          else r.put column 0 :: spread column (i + 1) values rows
      | [] => r.put column 0 :: spread column (i + 1) [] rows

def setColumn (column : Nat) (cost : α) (values : Sparse α) (m : Model α) : Model α :=
  { m with
    cost := m.cost.set column cost
    rows := spread column 0 values m.rows }

/-- Delete a variable; the columns after it move down by one.  The removal from the list of columns
is assumed of index-utils, as that from the sparse vectors is (`Sparse.delete`): it is documented to
take out the position and to keep the order of the others. -/
def deleteColumn (column : Nat) (m : Model α) : Model α :=
  { m with
    columns := m.columns.eraseIdx column
    cost := m.cost.delete column
    rows := m.rows.map fun r => { r with coefficients := r.coefficients.delete column } }

/-- Delete a constraint; the rows after it move down by one, as assumed of index-utils
(`deleteColumn`). -/
def deleteRow (row : Nat) (m : Model α) : Model α := { m with rows := m.rows.eraseIdx row }

/-- Write the coefficient at a position, if the row exists; row 0 is the cost. -/
def setElement? (row column : Nat) (x : α) (m : Model α) : Option (Model α) :=
  match row with
  | 0 => some { m with cost := m.cost.set column x }
  | i + 1 => m.modifyRow? i (Row.put column x)

end Model
end LinProg
