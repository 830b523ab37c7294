/-
The basis of a tableau and its marks.

Which columns are basic is said twice, by the rows and by a mark on each column.
That the two agree and that no column is basic on two rows does not depend on
the entries, which may be any scalars: a pivot takes the mark off the column
that leaves and puts it on one that had none.
-/
import LinProg.Proofs.Tableau.Rows

namespace LinProg
namespace Tableau

variable {α : Type} {t : Tableau α} {c r : ℕ}

/-- The columns that are basic on the rows are pairwise distinct, and the marks say which they
are. -/
structure Marked (t : Tableau α) : Prop where
  distinct : ∀ i < t.nrRows, ∀ k < t.nrRows, t.basis i = t.basis k → i = k
  isInBasis_iff : ∀ j, t.isInBasis j = true ↔ ∃ i < t.nrRows, t.basis i = j

theorem lt_nrColumns_of_isInBasis {j : ℕ} (h : t.isInBasis j = true) : j < t.nrColumns := by
  by_contra hj
  have : t.isInBasis j = false := List.getD_eq_default _ _ (not_lt.mp hj)
  simp [this] at h

theorem Marked.basis_lt (ht : t.Marked) {i : ℕ} (hi : i < t.nrRows) : t.basis i < t.nrColumns :=
  lt_nrColumns_of_isInBasis ((ht.isInBasis_iff _).mpr ⟨i, hi, rfl⟩)

variable [Scalar α]

theorem isInBasis_pivot (hc : c < t.nrColumns) (hr : t.basis r < t.nrColumns) (j : ℕ) :
    (t.pivot c r).isInBasis j
      = if c = j then true else if t.basis r = j then false else t.isInBasis j := by
  show ((t.inBasis.set (t.basis r) false).set c true).getD j false = _
  have hc' : c < (t.inBasis.set (t.basis r) false).length := by
    rw [List.length_set]
    exact hc
  rw [Dense.getD_set hc', Dense.getD_set hr]
  rfl

theorem Marked.distinct_pivot (ht : t.Marked) (hn : t.isInBasis c = false) {i k : ℕ}
    (hi : i < t.nrRows) (hk : k < t.nrRows)
    (h : (t.pivot c r).basis i = (t.pivot c r).basis k) : i = k := by
  -- the column that enters is basic on no other row
  have hother : ∀ i < t.nrRows, t.basis i ≠ c := by
    rintro i hi rfl
    rw [(ht.isInBasis_iff _).mpr ⟨i, hi, rfl⟩] at hn
    cases hn
  rw [basis_pivot hi, basis_pivot hk] at h
  split_ifs at h with hir hkr hkr
  · exact hir.trans hkr.symm
  · exact absurd h.symm (hother k hk)
  · exact absurd h (hother i hi)
  · exact ht.distinct i hi k hk h

theorem Marked.isInBasis_iff_pivot (ht : t.Marked) (hr : r < t.nrRows)
    (hn : t.isInBasis c = false) (hcN : c < t.nrColumns) (j : ℕ) :
    (t.pivot c r).isInBasis j = true ↔ ∃ i < t.nrRows, (t.pivot c r).basis i = j := by
  rw [isInBasis_pivot hcN (ht.basis_lt hr)]
  constructor
  · intro h
    split_ifs at h with hcj hrj
    · exact ⟨r, hr, by rw [basis_pivot hr, if_pos rfl, hcj]⟩
    · obtain ⟨i, hi, rfl⟩ := (ht.isInBasis_iff j).mp h
      have hir : i ≠ r := fun hir => hrj (hir ▸ rfl)
      exact ⟨i, hi, by rw [basis_pivot hi, if_neg hir]⟩
  · rintro ⟨i, hi, rfl⟩
    rw [basis_pivot hi]
    by_cases hir : i = r
    · simp [hir]
    · have hci : c ≠ t.basis i := by
        rintro rfl
        simp [(ht.isInBasis_iff _).mpr ⟨i, hi, rfl⟩] at hn
      have hri : t.basis r ≠ t.basis i := fun h => hir (ht.distinct r hr i hi h).symm
      rw [if_neg hir, if_neg hci, if_neg hri]
      exact (ht.isInBasis_iff _).mpr ⟨i, hi, rfl⟩

theorem Marked.pivot (ht : t.Marked) (hr : r < t.nrRows) (hn : t.isInBasis c = false)
    (hcN : c < t.nrColumns) : (t.pivot c r).Marked where
  distinct i hi k hk := by
    rw [nrRows_pivot] at hi hk
    exact ht.distinct_pivot hn hi hk
  isInBasis_iff j := by
    rw [nrRows_pivot]
    exact ht.isInBasis_iff_pivot hr hn hcN j

end Tableau
end LinProg
