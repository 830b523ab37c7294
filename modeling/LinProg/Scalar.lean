/-
Scalars: the numbers a model is written in.

Everything from sparse rows to the simplex method is written once over
`Scalar`.  It runs on `Float`; on `Rat` the same definitions compute
exactly, which is the reading that statements about optimality and
feasibility need.  The class carries operations only, no laws: the
floating point numbers satisfy hardly any.

The order of the operations is part of every definition that uses them,
since rounding makes it visible.
-/
import LinProg.Text.Numeral

namespace LinProg

/-- Numbers with arithmetic, two orders and a way to read numerals. -/
class Scalar (α : Type) extends
    Zero α, One α, Add α, Sub α, Mul α, Div α, Neg α, LT α, LE α, BEq α where
  decLt (x y : α) : Decidable (x < y)
  decLe (x y : α) : Decidable (x ≤ y)
  abs (x : α) : α
  /-- A total order that agrees with `<` wherever that compares two unequal numbers. -/
  order (x y : α) : Ordering
  isFinite (x : α) : Bool
  lowest? : Option α
  highest? : Option α
  /-- The scalar nearest to `mantissa * 10 ^ exponent`. -/
  ofDecimal (mantissa : Nat) (exponent : Int) : α
  ofNumeral? (numeral : Numeral) : Option α

namespace Scalar

variable {α : Type} [Scalar α]

instance : DecidableLT α := decLt
instance : DecidableLE α := decLe

/-- Whether a scalar equals zero, of either sign. -/
def isZero (x : α) : Bool := x == 0

/-- Sum from left to right.  It starts from `-0`, to which adding anything changes nothing. -/
def sum (xs : List α) : α := xs.foldl (· + ·) (-0)

/-- The larger of two scalars, the second one on a tie; an undefined one gives way to the other. -/
def larger (x y : α) : α := if y == y then (if y < x then x else y) else x

/-- The smaller of two scalars, the second one on a tie; an undefined one gives way to the
other. -/
def smaller (x y : α) : α := if y == y then (if x < y then x else y) else x

/-- Whether a scalar counts as infinite, given the size from which on scalars do. -/
def isInfinite (infinity x : α) : Bool := infinity ≤ abs x

end Scalar

/-! ## Exact scalars -/

namespace Scalar

/-- The rational `mantissa * 10 ^ exponent`. -/
def decimalRat (mantissa : Nat) (exponent : Int) : Rat :=
  if exponent < 0 then (mantissa : Rat) / (Nat.pow 10 exponent.natAbs : Nat)
  else ((mantissa * Nat.pow 10 exponent.natAbs : Nat) : Rat)

end Scalar

/-- Rational arithmetic is exact; every rational is finite. -/
instance : Scalar Rat where
  -- named, since a library may bring other instances along
  toZero := @Zero.ofOfNat0 Rat Rat.instOfNat
  toOne := @One.ofOfNat1 Rat Rat.instOfNat
  decLt := inferInstance
  decLe := inferInstance
  abs x := if x < 0 then -x else x
  order x y := if x < y then .lt else if y < x then .gt else .eq
  isFinite _ := true
  lowest? := none
  highest? := none
  ofDecimal := Scalar.decimalRat
  ofNumeral?
    | .decimal negative m e =>
        some (if negative then -Scalar.decimalRat m e else Scalar.decimalRat m e)
    | _ => none

/-! ## Floating point scalars -/

namespace Scalar

/-- The position of a floating point number in the order of all of them: by sign, then by
size, with the undefined ones below all others.  An order by bits puts an undefined number with a
clear sign bit above all others instead; but `Float` does not tell the undefined numbers apart, so
neither can this. -/
def floatRank (x : Float) : Int :=
  let bits := x.toBits.toNat
  let half := Nat.pow 2 63
  if x.isNaN then -(half : Int)
  else if bits < half then bits
  else (half : Int) - 1 - (bits : Int)

/-- The floating point number nearest to `mantissa * 10 ^ exponent`.  A number with its first
digit at or past the 310th place before the point is infinite, one with its first digit past the
330th place after the point is zero; this keeps the powers of ten small. -/
def decimalFloat (mantissa : Nat) (exponent : Int) : Float :=
  let places := (Nat.toDigits 10 mantissa).length + exponent
  if mantissa = 0 then 0.0
  else if 310 < places then 1.0 / 0.0
  else if places < -330 then 0.0
  else Float.ofScientific mantissa (exponent < 0) exponent.natAbs

end Scalar

/-- Floating point arithmetic rounds every result to the nearest number. -/
instance : Scalar Float where
  decLt := inferInstance
  decLe := inferInstance
  zero := 0.0
  one := 1.0
  abs := Float.abs
  order x y := compare (Scalar.floatRank x) (Scalar.floatRank y)
  isFinite := Float.isFinite
  lowest? := some (-1.0 / 0.0)
  highest? := some (1.0 / 0.0)
  ofDecimal := Scalar.decimalFloat
  ofNumeral?
    | .decimal negative m e =>
        some (if negative then -Scalar.decimalFloat m e else Scalar.decimalFloat m e)
    | .infinite negative => some (if negative then -1.0 / 0.0 else 1.0 / 0.0)
    | .undefined => some (0.0 / 0.0)

end LinProg
