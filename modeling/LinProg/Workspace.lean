/-
The workspace in which an expression is laid out as two parallel lists of
columns and coefficients before it is handed to a model.

A workspace is reused.  It only grows, to the length of the longest
expression seen so far, and what lies past the current expression is left
over from earlier ones.
-/
import LinProg.Error
import LinProg.Expr
import LinProg.Listing

namespace LinProg

/-- Columns and coefficients of the expressions laid out so far, the latest in front. -/
structure Workspace (α : Type) where
  columns : List Nat
  coefficients : List α
deriving DecidableEq

namespace Workspace

variable {α : Type} [Scalar α]

def empty : Workspace α := ⟨[], []⟩

def capacity (w : Workspace α) : Nat := w.columns.length

/-- Make room for a number of terms; a workspace that is too small is replaced by a blank one. -/
def ensure (n : Nat) (w : Workspace α) : Workspace α :=
  if w.capacity < n then ⟨List.replicate n 0, List.replicate n 0⟩ else w

/-- Write terms over the front of the workspace. -/
def overwrite (ts : List (Term α)) (w : Workspace α) : Workspace α :=
  { columns := ts.map Term.column ++ w.columns.drop ts.length
    coefficients := ts.map Term.coefficient ++ w.coefficients.drop ts.length }

/-- Lay out the terms of an expression, unless one of them is in column 0. -/
def layOut (e : Expr α) (w : Workspace α) : Except Error (Workspace α) :=
  if e.terms.any fun t => t.column == 0 then .error .invalidColumn
  else .ok ((w.ensure e.length).overwrite e.terms)

/-- The first `count` columns and coefficients. -/
def listing (count : Nat) (w : Workspace α) : Listing α :=
  ⟨count, w.coefficients.take count, w.columns.take count⟩

omit [Scalar α] in
/-- What was laid out is in front. -/
theorem listing_overwrite (ts : List (Term α)) (w : Workspace α) :
    (w.overwrite ts).listing ts.length
      = ⟨ts.length, ts.map Term.coefficient, ts.map Term.column⟩ := by
  simp [listing, overwrite]

end Workspace

end LinProg
