/-
The standard form of a model.

A variable with a lower bound is shifted to start at zero, and gets an
equation of its own for its upper bound; one with an upper bound only is
mirrored; a free one is the difference of two columns.  A row becomes one
equation for each of its finite limits, with a slack column for every
inequality, and is flipped where its right-hand side is negative.  A row
that is an equation of the model has no slack.
-/
import LinProg.Model.Limits
import LinProg.StandardForm.Basic

namespace LinProg

inductive Obstacle where
  /-- A row is limited by an infinite value from the wrong side. -/
  | unmeetable (row : Nat)
  /-- A coefficient belongs to a column that is not there. -/
  | strayColumn (column : Nat)
deriving DecidableEq

/-- An equation to be: its slack has a sign but no column yet. -/
structure Pending (α : Type) where
  coefficients : List (Nat × α)
  value : α
  slack : Option α
  /-- The row of the model that it states a limit of; a bound belongs to no row. -/
  row : Option Nat
deriving DecidableEq

namespace Sense

variable {α : Type} [Scalar α]

/-- The factor that turns an objective into one to be minimised. -/
def sign : Sense → α
  | maximize => -1
  | minimize => 1

end Sense

namespace Column

variable {α : Type} [Scalar α]

/-- How a variable is made of nonnegative columns, the first of which is `next`. -/
def substitution (infinity : α) (next : Nat) (c : Column α) : Substitution α :=
  if !Scalar.isInfinite infinity c.lower then ⟨c.lower, [(next, 1)]⟩
  else if !Scalar.isInfinite infinity c.upper then ⟨c.upper, [(next, -1)]⟩
  else ⟨0, [(next, 1), (next + 1, -1)]⟩

/-- The upper bound of a variable with two bounds, as a limit on its column. -/
def boundRow? (infinity : α) (next : Nat) (c : Column α) : Option (Pending α) :=
  if !Scalar.isInfinite infinity c.lower && !Scalar.isInfinite infinity c.upper then
    some ⟨[(next, 1)], c.upper - c.lower, some 1, none⟩
  else none

end Column

namespace Row

variable {α : Type} [Scalar α]

/-- The coefficients of a row after substitution, in the order of its variables. -/
def substituted (subs : List (Substitution α)) (r : Row α) : List (Nat × α) :=
  r.coefficients.flatMap fun (j, x) =>
    (subs.getD j ⟨0, []⟩).parts.map fun (k, sign) => (k, sign * x)

/-- The part of the value of a row that is due to the offsets of its variables. -/
def shift (subs : List (Substitution α)) (r : Row α) : α :=
  Scalar.sum (r.coefficients.map fun (j, x) => x * (subs.getD j ⟨0, []⟩).offset)

/-- The equations of a row that can be met: one if its limits are a point, and otherwise one for
each finite limit, the lower one first. -/
def pending (infinity : α) (subs : List (Substitution α)) (index : Nat) (r : Row α) :
    List (Pending α) :=
  let coefficients := r.substituted subs
  let shift := r.shift subs
  let limits := r.limits
  match limits.point? with
  | some b => [⟨coefficients, b - shift, none, some index⟩]
  | none =>
      (limits.finiteLower? infinity).toList.map
          (fun a => ⟨coefficients, a - shift, some (-1), some index⟩)
        ++ (limits.finiteUpper? infinity).toList.map
          (fun b => ⟨coefficients, b - shift, some 1, some index⟩)

/-- The equations of a row, if all its variables exist and it can be met. -/
def pending? (infinity : α) (subs : List (Substitution α)) (index : Nat) (r : Row α) :
    Except Obstacle (List (Pending α)) :=
  match r.coefficients.find? fun e => subs.length ≤ e.1 with
  | some e => .error (.strayColumn e.1)
  | none =>
      if r.limits.unmeetable infinity then .error (.unmeetable index)
      else .ok (r.pending infinity subs index)

end Row

namespace Pending

variable {α : Type} [Scalar α]

/-- The equation of a given width whose slack, if it has one, is in column `slack`. -/
def equation (width slack : Nat) (p : Pending α) : Equation α :=
  let sign : α := if p.value < 0 then -1 else 1
  let dense := p.coefficients.foldl (fun d (k, x) => d.modify k (· + sign * x))
    (List.replicate width 0)
  { coefficients :=
      match p.slack with
      | some s => dense.set slack (sign * s)
      | none => dense
    value := sign * p.value
    basic := p.slack.bind fun s => if 0 < sign * s then some slack else none
    origin :=
      match p.row with
      | some row => .constraint row sign
      | none => .bound }

def equations (width slack : Nat) : List (Pending α) → List (Equation α)
  | [] => []
  | p :: ps =>
      p.equation width slack :: equations width (if p.slack.isSome then slack + 1 else slack) ps

end Pending

namespace Model

variable {α : Type} [Scalar α]

/-- How the variables are made of consecutive columns from `next` on. -/
def substitutionsFrom (infinity : α) (next : Nat) : List (Column α) → List (Substitution α)
  | [] => []
  | c :: cs =>
      let s := c.substitution infinity next
      s :: substitutionsFrom infinity (next + s.parts.length) cs

def boundRowsFrom (infinity : α) (next : Nat) : List (Column α) → List (Pending α)
  | [] => []
  | c :: cs =>
      (c.boundRow? infinity next).toList
        ++ boundRowsFrom infinity (next + (c.substitution infinity next).parts.length) cs

/-- The equations of the rows from index `index` on. -/
def rowsFrom? (infinity : α) (subs : List (Substitution α)) (index : Nat) :
    List (Row α) → Except Obstacle (List (Pending α))
  | [] => .ok []
  | r :: rows =>
      match r.pending? infinity subs index with
      | .error e => .error e
      | .ok ps => (rowsFrom? infinity subs (index + 1) rows).map (ps ++ ·)

/-- The cost of each column, for minimisation. -/
def substitutedCost (subs : List (Substitution α)) (width : Nat) (m : Model α) : List α :=
  m.cost.foldl
    (fun d (j, x) => (subs.getD j ⟨0, []⟩).parts.foldl
      (fun d (k, sign) => d.modify k (· + m.sense.sign * sign * x)) d)
    (List.replicate width 0)

/-- The standard form of a model in which values of the size of `infinity` are infinite. -/
def standardForm (infinity : α) (m : Model α) : Except Obstacle (StandardForm α) :=
  let subs := substitutionsFrom infinity 0 m.columns
  match rowsFrom? infinity subs 0 m.rows with
  | .error e => .error e
  | .ok rows =>
      match m.cost.find? fun e => subs.length ≤ e.1 with
      | some e => .error (.strayColumn e.1)
      | none =>
          let pending := boundRowsFrom infinity 0 m.columns ++ rows
          let structural := subs.foldr (fun s n => s.parts.length + n) 0
          let width := structural + pending.countP fun p => p.slack.isSome
          .ok
            { equations := Pending.equations width structural pending
              cost := m.substitutedCost subs width
              substitutions := subs }

end Model

end LinProg
