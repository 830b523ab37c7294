/-
Linear expressions over the columns of a model.

An expression is a single variable, a single term, or a sum of terms in
the order in which they were written.  Composition never simplifies: a
column may occur many times, and merging the terms of one column is left
to the row that the expression becomes.
-/
import LinProg.Scalar

namespace LinProg

/-- A column, numbered from one, with a coefficient. -/
structure Term (α : Type) where
  column : Nat
  coefficient : α
deriving DecidableEq

namespace Term

variable {α : Type} [Scalar α]

def neg (t : Term α) : Term α := { t with coefficient := -t.coefficient }

def scale (t : Term α) (factor : α) : Term α := { t with coefficient := t.coefficient * factor }

end Term

/-- A linear expression. -/
inductive Expr (α : Type) where
  | var (column : Nat)
  | term (t : Term α)
  /-- The sum of a list of terms; the empty sum is zero. -/
  | sum (ts : List (Term α))
deriving DecidableEq

namespace Expr

variable {α : Type} [Scalar α]

/-- The terms of an expression in order; a variable is a term with coefficient one. -/
def terms : Expr α → List (Term α)
  | var column => [⟨column, 1⟩]
  | term t => [t]
  | sum ts => ts

def toSum (e : Expr α) : Expr α := sum e.terms

/-- The expression as it is kept in a constraint, where a variable has become a term. -/
def settle : Expr α → Expr α
  | var column => term ⟨column, 1⟩
  | e => e

def neg : Expr α → Expr α
  | var column => term ⟨column, -1⟩
  | term t => term t.neg
  | sum ts => sum (ts.map Term.neg)

/-- The multiple of an expression; repeated scaling multiplies the factors. -/
def scale (factor : α) : Expr α → Expr α
  | var column => term ⟨column, factor⟩
  | term t => term (t.scale factor)
  | sum ts => sum (ts.map fun t => t.scale factor)

/-- The terms of one expression followed by those of another. -/
def add (e f : Expr α) : Expr α := sum (e.terms ++ f.terms)

def sub (e f : Expr α) : Expr α := e.add f.neg

def total (es : List (Expr α)) : Expr α := es.foldl add (sum [])

def length (e : Expr α) : Nat := e.terms.length

@[simp] theorem terms_toSum (e : Expr α) : e.toSum.terms = e.terms := rfl

@[simp] theorem terms_settle (e : Expr α) : e.settle.terms = e.terms := by cases e <;> rfl

@[simp] theorem terms_add (e f : Expr α) : (e.add f).terms = e.terms ++ f.terms := rfl

@[simp] theorem terms_sub (e f : Expr α) : (e.sub f).terms = e.terms ++ f.neg.terms := rfl

end Expr

end LinProg
