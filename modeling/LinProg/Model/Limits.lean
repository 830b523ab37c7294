/-
The interval in which the value of a row has to lie.
-/
import LinProg.Model.Basic

namespace LinProg

/-- An interval of scalars.  Where a side is `none` there is no limit on that side. -/
structure Limits (α : Type) where
  lower : Option α
  upper : Option α
deriving DecidableEq

namespace Limits

variable {α : Type} [Scalar α]

/-- The only value of an interval whose ends are equal. -/
def point? (l : Limits α) : Option α :=
  match l.lower, l.upper with
  | some a, some b => if a == b then some a else none
  | _, _ => none

/-- Whether no finite value can lie in the interval: it is an infinite point, or one of its ends
is infinite on the wrong side. -/
def unmeetable (infinity : α) (l : Limits α) : Bool :=
  match l.point? with
  | some a => Scalar.isInfinite infinity a
  | none =>
      l.lower.any (fun a => Scalar.isInfinite infinity a && decide (0 < a))
        || l.upper.any (fun b => Scalar.isInfinite infinity b && decide (b < 0))

def finiteLower? (infinity : α) (l : Limits α) : Option α :=
  l.lower.filter fun a => !Scalar.isInfinite infinity a

def finiteUpper? (infinity : α) (l : Limits α) : Option α :=
  l.upper.filter fun b => !Scalar.isInfinite infinity b

/-- Whether a value lies in the interval, or outside by no more than a threshold. -/
def holds (threshold : α) (l : Limits α) (x : α) : Bool :=
  l.lower.all (fun a => decide (a - threshold ≤ x))
    && l.upper.all (fun b => decide (x ≤ b + threshold))

end Limits

namespace Row

variable {α : Type} [Scalar α]

/-- The interval of a row.  A range turns an inequality into an interval of that width, whatever
its sign, with one end at the right-hand side; an equation ignores it. -/
def limits (r : Row α) : Limits α :=
  let b := r.rightHandSide
  match r.relation, r.range with
  | .less, none => ⟨Scalar.lowest?, some b⟩
  | .less, some w => ⟨some (b - Scalar.abs w), some b⟩
  | .greater, none => ⟨some b, Scalar.highest?⟩
  | .greater, some w => ⟨some b, some (b + Scalar.abs w)⟩
  | .equal, _ => ⟨some b, some b⟩

end Row

end LinProg
