/-
The configuration of an engine.
-/
import LinProg.Scalar

namespace LinProg

/-- How much an engine reports about its work. -/
inductive Verbosity where
  | neutral
  | critical
  | severe
  | important
  | normal
  | detailed
  | full
deriving DecidableEq

namespace Verbosity

/-- Unless told otherwise an engine reports critical events only. -/
instance : Inhabited Verbosity := ⟨critical⟩

def level : Verbosity → Nat
  | neutral => 0
  | critical => 1
  | severe => 2
  | important => 3
  | normal => 4
  | detailed => 5
  | full => 6

end Verbosity

/-- The options of an engine. -/
structure Config (α : Type) where
  /-- The size up to which values count as zero while pivoting. -/
  epsilon : α
  /-- The largest total violation of the constraints that counts as feasible. -/
  feasibilityTolerance : α
  /-- The size from which on bounds and right-hand sides are infinite. -/
  infinity : α
  /-- The time in milliseconds that a solve may take, if it is limited. -/
  timeLimit : Option Nat
  verbosity : Verbosity
deriving BEq

namespace Config

variable {α : Type} [Scalar α]

/-- The options that hold unless others are given. -/
def standard : Config α :=
  { epsilon := Scalar.ofDecimal 1 (-9)
    feasibilityTolerance := Scalar.ofDecimal 1 (-7)
    infinity := Scalar.ofDecimal 1 30
    timeLimit := none
    verbosity := default }

end Config

end LinProg
