/-
Scalars whose comparisons can be trusted.

Floating point arithmetic satisfies hardly any law, but nothing is rounded
where two numbers are compared, negated or taken by their size.  So there
is a rank for every number, in which these three are what they are for
rationals; an undefined number has none and compares to nothing.  What
rests on comparisons alone is then proved once, for exact scalars and for
floating point numbers.
-/
import LinProg.Proofs.Dense

namespace LinProg
namespace Scalar

/-- Scalars that are ordered by a rational rank, except for those that have none. -/
class Ranked (α : Type) [Scalar α] where
  rank? : α → Option ℚ
  lt_iff (x y : α) : x < y ↔ ∃ a ∈ rank? x, ∃ b ∈ rank? y, a < b
  le_iff (x y : α) : x ≤ y ↔ ∃ a ∈ rank? x, ∃ b ∈ rank? y, a ≤ b
  beq_iff (x y : α) : (x == y) = true ↔ ∃ a ∈ rank? x, a ∈ rank? y
  rank?_zero : rank? 0 = some 0
  rank?_neg (x : α) : rank? (-x) = (rank? x).map Neg.neg
  rank?_abs (x : α) : rank? (Scalar.abs x) = (rank? x).map fun a => |a|

/-- Exact scalars are their own ranks. -/
instance : Ranked ℚ where
  rank? := some
  lt_iff x y := by simp
  le_iff x y := by simp
  beq_iff x y := by
    rw [beq_iff_eq]
    exact ⟨fun h => ⟨x, rfl, congrArg some h.symm⟩, fun ⟨a, hx, hy⟩ =>
      (Option.some.inj hx).trans (Option.some.inj hy).symm⟩
  rank?_zero := rfl
  rank?_neg _ := rfl
  rank?_abs x := congrArg some (abs_eq x)

namespace Ranked

variable {α : Type} [Scalar α] [Ranked α] {x y infinity : α} {a b : ℚ}

theorem lt_iff_of_rank (hx : rank? x = some a) (hy : rank? y = some b) : x < y ↔ a < b := by
  rw [lt_iff x y, hx, hy]
  simp

theorem le_iff_of_rank (hx : rank? x = some a) (hy : rank? y = some b) : x ≤ y ↔ a ≤ b := by
  rw [le_iff x y, hx, hy]
  simp

/-- What has no rank compares to nothing. -/
theorem not_lt_of_rank (h : rank? x = none ∨ rank? y = none) : ¬ x < y := by
  rw [lt_iff x y]
  rintro ⟨a, ha, b, hb, -⟩
  rcases h with h | h
  · cases ha.symm.trans h
  · cases hb.symm.trans h

theorem not_le_of_rank (h : rank? x = none ∨ rank? y = none) : ¬ x ≤ y := by
  rw [le_iff x y]
  rintro ⟨a, ha, b, hb, -⟩
  rcases h with h | h
  · cases ha.symm.trans h
  · cases hb.symm.trans h

theorem rank?_neg_eq (hx : rank? x = some a) : rank? (-x) = some (-a) := by
  rw [rank?_neg, hx]
  rfl

theorem rank?_of_pos (h : 0 < x) : ∃ a, rank? x = some a ∧ 0 < a := by
  obtain ⟨z, hz, a, ha, hlt⟩ := (lt_iff 0 x).mp h
  obtain rfl : 0 = z := Option.some.inj (rank?_zero.symm.trans hz)
  exact ⟨a, ha, hlt⟩

theorem lt_zero_iff (hx : rank? x = some a) : x < 0 ↔ a < 0 := lt_iff_of_rank hx rank?_zero

/-- The larger of two scalars is the second one, where the first has no rank. -/
theorem rank?_larger (hy : rank? y = some b) :
    rank? (larger x y) = some ((rank? x).elim b (max b)) := by
  have hself : (y == y) = true := (beq_iff y y).mpr ⟨b, hy, hy⟩
  rw [larger, if_pos hself]
  cases hx : rank? x with
  | none => rw [if_neg (not_lt_of_rank (Or.inr hx)), hy, Option.elim_none]
  | some a =>
      have hlt := lt_iff_of_rank hy hx
      rw [Option.elim_some]
      split
      · rename_i h
        rw [hx, max_eq_right (hlt.mp h).le]
      · rename_i h
        rw [hy, max_eq_left (not_lt.mp (mt hlt.mpr h))]

theorem rank?_smaller (hy : rank? y = some b) :
    rank? (smaller x y) = some ((rank? x).elim b (min b)) := by
  have hself : (y == y) = true := (beq_iff y y).mpr ⟨b, hy, hy⟩
  rw [smaller, if_pos hself]
  cases hx : rank? x with
  | none => rw [if_neg (not_lt_of_rank (Or.inl hx)), hy, Option.elim_none]
  | some a =>
      have hlt := lt_iff_of_rank hx hy
      rw [Option.elim_some]
      split
      · rename_i h
        rw [hx, min_eq_right (hlt.mp h).le]
      · rename_i h
        rw [hy, min_eq_left (not_lt.mp (mt hlt.mpr h))]

/-- A scalar above one that is not negative has a size above it. -/
theorem lt_abs_of_lt (hx : 0 ≤ x) (h : x < y) : x < Scalar.abs y := by
  obtain ⟨z, hz, a, ha, hnonneg⟩ := (le_iff 0 x).mp hx
  obtain rfl : 0 = z := Option.some.inj (rank?_zero.symm.trans hz)
  obtain ⟨a', ha', b, hb, hlt⟩ := (lt_iff x y).mp h
  obtain rfl : a = a' := Option.some.inj (ha.symm.trans ha')
  have habs : rank? (Scalar.abs y) = some |b| := by
    rw [rank?_abs, hb]
    rfl
  exact (lt_iff_of_rank ha habs).mpr (hlt.trans_le (le_abs_self b))

protected theorem le_trans {z : α} (hxy : x ≤ y) (hyz : y ≤ z) : x ≤ z := by
  obtain ⟨a, ha, b, hb, hab⟩ := (le_iff x y).mp hxy
  obtain ⟨b', hb', c, hc, hbc⟩ := (le_iff y z).mp hyz
  obtain rfl : b = b' := Option.some.inj (hb.symm.trans hb')
  exact (le_iff x z).mpr ⟨a, ha, c, hc, hab.trans hbc⟩

protected theorem neg_le_neg (h : x ≤ y) : -y ≤ -x := by
  obtain ⟨a, ha, b, hb, hab⟩ := (le_iff x y).mp h
  exact (le_iff_of_rank (rank?_neg_eq hb) (rank?_neg_eq ha)).mpr (by linarith)

theorem le_self_of_pos (h : 0 < x) : x ≤ x := by
  obtain ⟨a, ha, -⟩ := rank?_of_pos h
  exact (le_iff_of_rank ha ha).mpr le_rfl

/-- Nothing is infinite on both sides. -/
theorem not_le_neg_of_le (hpos : 0 < infinity) (h : infinity ≤ x) : ¬ x ≤ -infinity := by
  obtain ⟨i, hi, hipos⟩ := rank?_of_pos hpos
  obtain ⟨i', hi', a, ha, hle⟩ := (le_iff _ _).mp h
  obtain rfl : i = i' := Option.some.inj (hi.symm.trans hi')
  rw [le_iff_of_rank ha (rank?_neg_eq hi)]
  linarith

theorem isInfinite_iff : isInfinite infinity x = true ↔ infinity ≤ x ∨ x ≤ -infinity := by
  rw [isInfinite, decide_eq_true_eq, le_iff infinity x, le_iff x, le_iff infinity, rank?_abs,
    rank?_neg]
  cases rank? infinity with
  | none => simp
  | some i =>
      cases rank? x with
      | none => simp
      | some a => simp [le_abs, le_neg]

/-- What counts as infinite does so for every smaller infinity. -/
theorem isInfinite_of_le {other : α} (h : infinity ≤ other) (hx : isInfinite other x = true) :
    isInfinite infinity x = true := by
  rw [isInfinite_iff] at hx ⊢
  exact hx.imp (Ranked.le_trans h) fun hx => Ranked.le_trans hx (Ranked.neg_le_neg h)

theorem isInfinite_of_beq (h : (x == y) = true) :
    isInfinite infinity x = isInfinite infinity y := by
  obtain ⟨a, hx, hy⟩ := (beq_iff x y).mp h
  rw [Option.mem_def] at hx hy
  rw [Bool.eq_iff_iff, isInfinite_iff, isInfinite_iff, le_iff infinity x, le_iff x,
    le_iff infinity y, le_iff y, hx, hy]

end Ranked
end Scalar
end LinProg
