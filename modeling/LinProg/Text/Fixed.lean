/-
Numbers with a fixed number of places after the point.

The exact value of a floating point number is rounded, and of two nearest
decimals the one with an even last digit is taken.
-/

namespace LinProg.Text.Fixed

/-- The quotient rounded to the nearest whole number, halves to the even one. -/
def roundDiv (num den : Nat) : Nat :=
  let q := num / den
  let r := num % den
  if 2 * r < den then q
  else if den < 2 * r then q + 1
  else q + q % 2

/-- The size of a finite floating point number, `mantissa * 2 ^ exponent`, from its bits. -/
def size (bits : Nat) : Nat × Int :=
  let fraction := bits % Nat.pow 2 52
  let exponent : Nat := bits / Nat.pow 2 52 % Nat.pow 2 11
  if exponent = 0 then (fraction, -1074) else (Nat.pow 2 52 + fraction, (exponent : Int) - 1075)

/-- The number of units of the last place that is nearest to a finite floating point number. -/
def units (places : Nat) (bits : Nat) : Nat :=
  let (m, e) := size bits
  let scaled := m * Nat.pow 10 places
  if e < 0 then roundDiv scaled (Nat.pow 2 e.natAbs) else scaled * Nat.pow 2 e.natAbs

/-- A count of units of the last place, with a point. -/
def point (places n : Nat) : String :=
  let digits := Nat.toDigits 10 n
  let padded := List.replicate (places + 1 - digits.length) '0' ++ digits
  let whole := padded.length - places
  String.ofList (padded.take whole) ++ "." ++ String.ofList (padded.drop whole)

/-- A floating point number with a number of places after the point. -/
def render (places : Nat) (x : Float) : String :=
  let sign := if Nat.pow 2 63 ≤ x.toBits.toNat then "-" else ""
  if x.isNaN then "NaN"
  else if x.isInf then sign ++ "inf"
  else sign ++ point places (units places x.toBits.toNat)

def alignRight (width : Nat) (s : String) : String :=
  String.ofList (List.replicate (width - s.length) ' ') ++ s

/-- Rounding is off by at most one half. -/
theorem roundDiv_near (num den : Nat) (h : 0 < den) :
    2 * num ≤ 2 * (roundDiv num den * den) + den ∧
      2 * (roundDiv num den * den) ≤ 2 * num + den := by
  have hq := Nat.div_add_mod num den
  have hr := Nat.mod_lt num h
  rw [Nat.mul_comm] at hq
  unfold roundDiv
  generalize num / den = q at hq ⊢
  generalize num % den = r at hq hr ⊢
  have h2 : q % 2 < 2 := Nat.mod_lt q (by decide)
  by_cases h1 : 2 * r < den
  · simp only [h1, if_true]
    omega
  · by_cases h3 : den < 2 * r
    · simp only [h1, h3, if_true, if_false, Nat.add_mul, Nat.one_mul]
      omega
    · simp only [h1, h3, if_false]
      rcases (by omega : q % 2 = 0 ∨ q % 2 = 1) with h | h <;>
        simp only [h, Nat.add_mul, Nat.one_mul, Nat.add_zero] <;> omega

end LinProg.Text.Fixed
