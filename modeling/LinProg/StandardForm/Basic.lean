/-
Linear programs in standard form: minimise a cost subject to equations
with nonnegative right-hand sides over nonnegative columns.

A standard form that was made from a model also knows how the variables
of the model are computed from its columns and where its equations come
from, so that values and prices can be taken back to the model.
-/
import LinProg.Sparse

namespace LinProg

/-- What an equation states. -/
inductive Origin (α : Type) where
  /-- The upper bound of a variable that has a lower bound as well. -/
  | bound
  /-- A limit of a row of the model, multiplied by a sign. -/
  | constraint (row : Nat) (sign : α)
deriving DecidableEq

/-- A variable as an offset plus nonnegative columns with their signs. -/
structure Substitution (α : Type) where
  offset : α
  parts : List (Nat × α)
deriving DecidableEq

structure Equation (α : Type) where
  coefficients : List α
  value : α
  /-- A column that is a unit vector on this row and can be part of a first basis. -/
  basic : Option Nat
  origin : Origin α
deriving DecidableEq

structure StandardForm (α : Type) where
  equations : List (Equation α)
  cost : List α
  substitutions : List (Substitution α)
deriving DecidableEq

namespace Substitution

variable {α : Type} [Scalar α]

/-- The value of the variable for given values of the columns. -/
def value (s : Substitution α) (columns : List α) : α :=
  s.offset + Scalar.sum (s.parts.map fun (k, sign) => sign * columns.getD k 0)

def value? (s : Substitution α) (columns : List α) : Option α :=
  if Sparse.Within columns.length s.parts then some (s.value columns) else none

end Substitution

namespace StandardForm

variable {α : Type} [Scalar α]

def nrRows (f : StandardForm α) : Nat := f.equations.length

def nrColumns (f : StandardForm α) : Nat := f.cost.length

end StandardForm

end LinProg
