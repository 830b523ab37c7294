/-
Tableaux in canonical form: the columns of the basis are unit vectors.

A vector of the row space is then determined by its values at the basis:
it is the combination of the rows with these values as factors
(`Canonical.expand`).  This is the one fact about bases that the rest
needs; two tableaux with one row space and one basis agree because of it.
-/
import LinProg.Proofs.Tableau.Basis

namespace LinProg
namespace Tableau

/-- The basic column of each row is a unit vector on that row, and the marks say which columns
are basic. -/
structure Canonical (t : Tableau ℚ) : Prop extends Rectangular t where
  unit_entry : ∀ i < t.nrRows, ∀ k < t.nrRows, t.row i (t.basis k) = if i = k then 1 else 0
  inBasis_iff : ∀ j, t.isInBasis j = true ↔ ∃ i < t.nrRows, t.basis i = j

variable {t : Tableau ℚ} {c r : ℕ}

namespace Canonical

variable (ht : t.Canonical)
include ht

theorem isInBasis_basis {i : ℕ} (hi : i < t.nrRows) : t.isInBasis (t.basis i) = true :=
  (ht.inBasis_iff _).mpr ⟨i, hi, rfl⟩

theorem basis_lt {i : ℕ} (hi : i < t.nrRows) : t.basis i < t.nrColumns :=
  lt_nrColumns_of_isInBasis (ht.isInBasis_basis hi)

theorem row_basis_self {i : ℕ} (hi : i < t.nrRows) : t.row i (t.basis i) = 1 := by
  rw [ht.unit_entry i hi i hi, if_pos rfl]

theorem row_basis_of_ne {i k : ℕ} (hk : k < t.nrRows) (h : i ≠ k) :
    t.row i (t.basis k) = 0 := by
  rcases lt_or_ge i t.nrRows with hi | hi
  · rw [ht.unit_entry i hi k hk, if_neg h]
  · rw [row_of_ge hi]
    rfl

theorem basis_inj {i k : ℕ} (hi : i < t.nrRows) (hk : k < t.nrRows)
    (h : t.basis i = t.basis k) : i = k := by
  by_contra hne
  have h0 := ht.row_basis_of_ne hk hne
  rw [← h, ht.row_basis_self hi] at h0
  exact one_ne_zero h0

theorem marked : t.Marked where
  distinct _ hi _ hk := ht.basis_inj hi hk
  isInBasis_iff := ht.inBasis_iff

/-- A vector of the row space is the combination of the rows with its own values at the basis as
factors. -/
theorem expand {w : ℕ → ℚ} (hw : w ∈ t.rowSpace) (j : ℕ) :
    w j = ∑ k ∈ Finset.range t.nrRows, w (t.basis k) * t.row k j := by
  induction hw using Submodule.span_induction with
  | mem w hw =>
      obtain ⟨i, rfl⟩ := hw
      have h0 : ∀ k ∈ Finset.range t.nrRows, k ≠ i → t.row i (t.basis k) * t.row k j = 0 := by
        intro k hk hne
        rw [ht.row_basis_of_ne (Finset.mem_range.mp hk) hne.symm, zero_mul]
      rcases lt_or_ge i t.nrRows with hi | hi
      · rw [Finset.sum_eq_single i h0 (fun h => absurd (Finset.mem_range.mpr hi) h),
          ht.row_basis_self hi, one_mul]
      · simp [row_of_ge hi]
  | zero => simp
  | add v w _ _ hv hw =>
      simp only [Pi.add_apply, add_mul, Finset.sum_add_distrib]
      rw [← hv, ← hw]
  | smul a v _ hv =>
      simp only [Pi.smul_apply, smul_eq_mul, mul_assoc, ← Finset.mul_sum]
      rw [← hv]

theorem eq_zero_of_basis {w : ℕ → ℚ} (hw : w ∈ t.rowSpace)
    (h : ∀ k < t.nrRows, w (t.basis k) = 0) : w = 0 := by
  funext j
  rw [ht.expand hw j]
  refine Finset.sum_eq_zero ?_
  intro k hk
  rw [h k (Finset.mem_range.mp hk), zero_mul]

theorem unit_entry_pivot (hr : r < t.nrRows) (hc : t.row r c ≠ 0) {i k : ℕ}
    (hi : i < t.nrRows) (hk : k < t.nrRows) :
    (t.pivot c r).row i ((t.pivot c r).basis k) = if i = k then 1 else 0 := by
  rw [basis_pivot hk]
  by_cases hkr : k = r
  · subst hkr
    rw [if_pos rfl]
    by_cases hik : i = k
    · subst hik
      rw [row_pivot_self hi hc, if_pos rfl]
      simp [hc]
    · rw [row_pivot_of_ne ht.toRectangular hk hc hik, if_neg hik]
      simp [hc]
  · rw [if_neg hkr]
    have hrk : t.row r (t.basis k) = 0 := ht.row_basis_of_ne hk (Ne.symm hkr)
    by_cases hir : i = r
    · subst hir
      rw [row_pivot_self hi hc, if_neg (Ne.symm hkr)]
      simp [hrk]
    · rw [row_pivot_of_ne ht.toRectangular hr hc hir]
      simp [hrk, ht.unit_entry i hi k hk]

/-- Pivoting on a nonzero entry of a column that is not basic leads to canonical form again. -/
theorem pivot (hr : r < t.nrRows) (hc : t.row r c ≠ 0) (hn : t.isInBasis c = false)
    (hcN : c < t.nrColumns) : (t.pivot c r).Canonical where
  toRectangular := rectangular_pivot ht.toRectangular hr
  unit_entry i hi k hk := by
    rw [nrRows_pivot] at hi hk
    exact ht.unit_entry_pivot hr hc hi hk
  inBasis_iff j := by
    exact (ht.marked.pivot hr hn hcN).isInBasis_iff j

end Canonical

end Tableau
end LinProg
