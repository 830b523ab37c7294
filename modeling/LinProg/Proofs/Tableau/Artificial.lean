/-
Artificial columns that stay in the basis.

When the first phase has found a solution the artificial columns are zero
(`Idle`).  Each is replaced where its row allows it; what remains sits on
rows that are zero at all other columns (`Cleared`), so that no later pivot
among these touches it.  `Closed` is the invariant of the second phase.
-/
import LinProg.Proofs.Tableau.Cost

namespace LinProg
namespace Tableau

variable {t : Tableau ℚ} {c r : ℕ}

/-- If an artificial column is basic on the row then the row is zero at the other columns. -/
def Cleared (t : Tableau ℚ) (i : ℕ) : Prop :=
  t.firstArtificial ≤ t.basis i → ∀ j < t.firstArtificial, t.row i j = 0

/-- All artificial columns have the value zero. -/
def Idle (t : Tableau ℚ) : Prop :=
  ∀ i < t.nrRows, t.firstArtificial ≤ t.basis i → t.row i t.nrColumns = 0

theorem Cleared.row_pivot (ht : t.Rectangular) (hr : r < t.nrRows) (hc : t.row r c ≠ 0)
    (hcF : c < t.firstArtificial) {i : ℕ} (h : t.Cleared i) (hir : i ≠ r)
    (hb : t.firstArtificial ≤ t.basis i) : (t.pivot c r).row i = t.row i := by
  rw [row_pivot_of_ne ht hr hc hir, h hb c hcF]
  simp

theorem Cleared.pivot (ht : t.Rectangular) (hr : r < t.nrRows) (hc : t.row r c ≠ 0)
    (hcF : c < t.firstArtificial) {i : ℕ} (hi : i < t.nrRows) (h : t.Cleared i) :
    (t.pivot c r).Cleared i := by
  intro hb j hj
  rw [firstArtificial_pivot] at hb hj
  rw [basis_pivot hi] at hb
  by_cases hir : i = r
  · rw [if_pos hir] at hb
    exact absurd hcF (not_lt.mpr hb)
  · rw [if_neg hir] at hb
    rw [h.row_pivot ht hr hc hcF hir hb]
    exact h hb j hj

theorem Idle.pivot (hc : c < t.firstArtificial)
    (hvalue : ∀ i < t.nrRows, i ≠ r → t.firstArtificial ≤ t.basis i →
      (t.pivot c r).row i t.nrColumns = 0) : (t.pivot c r).Idle := by
  intro i hi hb
  rw [nrRows_pivot] at hi
  rw [firstArtificial_pivot, basis_pivot hi] at hb
  rw [nrColumns_pivot]
  by_cases hir : i = r
  · rw [if_pos hir] at hb
    exact absurd hc (not_lt.mpr hb)
  · rw [if_neg hir] at hb
    exact hvalue i hi hir hb

theorem Idle.pivot_of_degenerate (hidle : t.Idle) (ht : t.Rectangular) (hr : r < t.nrRows)
    (hc : t.row r c ≠ 0) (hcF : c < t.firstArtificial) (hvalue : t.row r t.nrColumns = 0) :
    (t.pivot c r).Idle := by
  refine Idle.pivot hcF ?_
  intro i hi _ hb
  rw [value_pivot_of_degenerate ht hr hc hvalue]
  exact hidle i hi hb

/-! ## Replacing artificial columns -/

/-- A replacement is a column outside the basis with an entry of a size above the tolerance. -/
theorem epsilon_lt_of_replacement? {α : Type} [Scalar α] {t : Tableau α} {l : Line α}
    (h : t.replacement? l = some c) :
    c < t.firstArtificial ∧ t.isInBasis c = false ∧ t.epsilon < Scalar.abs (l.entry c) := by
  rw [replacement?, List.find?_range_eq_some] at h
  obtain ⟨hc, hmem, -⟩ := h
  rw [Bool.and_eq_true, Bool.not_eq_true', decide_eq_true_eq] at hc
  exact ⟨List.mem_range.mp hmem, hc⟩

theorem replacement?_eq_some (hε : 0 ≤ t.epsilon) {l : Line ℚ} (h : t.replacement? l = some c) :
    c < t.firstArtificial ∧ t.isInBasis c = false ∧ l.entry c ≠ 0 := by
  obtain ⟨hcF, hn, hc⟩ := epsilon_lt_of_replacement? h
  rw [Scalar.abs_eq] at hc
  exact ⟨hcF, hn, abs_pos.mp (hε.trans_lt hc)⟩

theorem replacement?_eq_none (hε : t.epsilon = 0) {l : Line ℚ} (h : t.replacement? l = none) :
    ∀ j < t.firstArtificial, t.isInBasis j = true ∨ l.entry j = 0 := by
  intro j hj
  rw [replacement?, List.find?_range_eq_none] at h
  have h := h j hj
  rcases hb : t.isInBasis j with _ | _
  · right
    simpa [hε, hb] using h
  · exact Or.inl rfl

theorem cleared_of_replacement?_eq_none (ht : t.Canonical) (hε : t.epsilon = 0) {i : ℕ}
    (h : t.replacement? (t.line i) = none) : t.Cleared i := by
  intro hb j hj
  rcases replacement?_eq_none hε h j hj with hbasic | hzero
  · obtain ⟨k, hk, rfl⟩ := (ht.inBasis_iff j).mp hbasic
    refine ht.row_basis_of_ne hk ?_
    rintro rfl
    exact absurd hj (not_lt.mpr hb)
  · exact hzero

/-- A pivot on a row of value zero changes the value of no column, although another column is basic
on that row afterwards. -/
theorem point_pivot_of_degenerate (ht : t.Rectangular) (hr : r < t.nrRows) (hc : t.row r c ≠ 0)
    (hvalue : t.row r t.nrColumns = 0) : (t.pivot c r).point = t.point := by
  funext j
  rw [point, point, atBasis, atBasis, nrRows_pivot]
  refine Finset.sum_congr rfl ?_
  intro i hi
  rw [nrColumns_pivot, value_pivot_of_degenerate ht hr hc hvalue,
    basis_pivot (Finset.mem_range.mp hi)]
  by_cases hir : i = r
  · rw [hir, hvalue, ite_self, ite_self]
  · rw [if_neg hir]

/-- What the replacing of artificial columns keeps and brings about; `P` tells the rows that it
takes care of. -/
structure Expelled (t t' : Tableau ℚ) (P : ℕ → Prop) : Prop where
  canonical : t'.Canonical
  sameRows : SameRows t t'
  enterable : t'.enterable = t.enterable
  value : ∀ i, t'.row i t'.nrColumns = t.row i t.nrColumns
  point : t'.point = t.point
  idle : t'.Idle
  cleared : ∀ i < t.nrRows, P i → t'.Cleared i

theorem Expelled.mono {t' : Tableau ℚ} {P Q : ℕ → Prop} (h : Expelled t t' P)
    (hPQ : ∀ i < t.nrRows, Q i → P i) : Expelled t t' Q :=
  { h with cleared := fun i hi hQ => h.cleared i hi (hPQ i hi hQ) }

theorem Expelled.after_pivot {t' : Tableau ℚ} {P : ℕ → Prop} (ht : t.Canonical)
    (hr : r < t.nrRows) (hc : t.row r c ≠ 0) (hvalue : t.row r t.nrColumns = 0)
    (h : Expelled (t.pivot c r) t' P) : Expelled t t' P where
  canonical := h.canonical
  sameRows := (SameRows.pivot ht.toRectangular hr hc).trans h.sameRows
  enterable := h.enterable
  value i := by
    rw [h.value i, nrColumns_pivot]
    exact value_pivot_of_degenerate ht.toRectangular hr hc hvalue i
  point := h.point.trans (point_pivot_of_degenerate ht.toRectangular hr hc hvalue)
  idle := h.idle
  cleared i hi hP := h.cleared i (by simpa using hi) hP

theorem Expelled.skip {t' : Tableau ℚ} {rows : List ℕ} (hr : r < t.nrRows → t.Cleared r)
    (h : Expelled t t' fun i => i ∈ rows ∨ t.Cleared i) :
    Expelled t t' fun i => i ∈ r :: rows ∨ t.Cleared i := by
  refine h.mono ?_
  intro i hi hmem
  rcases hmem with hmem | hclr
  · rcases List.mem_cons.mp hmem with rfl | hmem
    · exact Or.inr (hr hi)
    · exact Or.inl hmem
  · exact Or.inr hclr

theorem Expelled.replace {t' : Tableau ℚ} {rows : List ℕ} (ht : t.Canonical)
    (hr : r < t.nrRows) (hc : t.row r c ≠ 0) (hcF : c < t.firstArtificial)
    (hvalue : t.row r t.nrColumns = 0)
    (h : Expelled (t.pivot c r) t' fun i => i ∈ rows ∨ (t.pivot c r).Cleared i) :
    Expelled t t' fun i => i ∈ r :: rows ∨ t.Cleared i := by
  refine (Expelled.after_pivot ht hr hc hvalue h).mono ?_
  intro i hi hmem
  rcases hmem with hmem | hclr
  · rcases List.mem_cons.mp hmem with rfl | hmem
    · right
      intro hb
      rw [firstArtificial_pivot, basis_pivot hr, if_pos rfl] at hb
      exact absurd hcF (not_lt.mpr hb)
    · exact Or.inl hmem
  · exact Or.inr (hclr.pivot ht.toRectangular hr hc hcF hi)

theorem expelOn_spec (rows : List ℕ) (ht : t.Canonical) (hε : t.epsilon = 0)
    (hF : t.firstArtificial ≤ t.nrColumns) (hidle : t.Idle) :
    Expelled t (expelOn rows t).1 fun i => i ∈ rows ∨ t.Cleared i := by
  induction rows generalizing t with
  | nil =>
      refine ⟨ht, SameRows.refl t, rfl, fun _ => rfl, rfl, hidle, ?_⟩
      intro i _ hi
      exact hi.resolve_left List.not_mem_nil
  | cons row rows ih =>
      have hrest := ih ht hε hF hidle
      rw [expelOn]
      split
      · rename_i hnone
        exact hrest.skip fun hlt => absurd (List.getElem?_eq_none_iff.mp hnone) (not_le.mpr hlt)
      · rename_i l hl
        obtain ⟨hrow, rfl⟩ := List.getElem?_eq_some_iff.mp hl
        rw [← line_eq_getElem hrow]
        split
        · rename_i hlt
          exact hrest.skip fun _ hb => absurd hlt (not_lt.mpr hb)
        · rename_i hge
          split
          · rename_i c hcol
            obtain ⟨hcF, hn, hc⟩ := replacement?_eq_some hε.ge hcol
            have hvalue : t.row row t.nrColumns = 0 := hidle row hrow (not_lt.mp hge)
            have hcan : (t.pivot c row).Canonical := ht.pivot hrow hc hn (hcF.trans_le hF)
            have hidle' := hidle.pivot_of_degenerate ht.toRectangular hrow hc hcF hvalue
            exact (ih hcan hε (by simpa using hF) hidle').replace ht hrow hc hcF hvalue
          · rename_i hnone
            exact hrest.skip fun _ => cleared_of_replacement?_eq_none ht hε hnone

/-- After the replacing every row is cleared. -/
theorem expelArtificial_spec (ht : t.Canonical) (hε : t.epsilon = 0)
    (hF : t.firstArtificial ≤ t.nrColumns) (hidle : t.Idle) :
    Expelled t t.expelArtificial.1 fun _ => True :=
  (expelOn_spec (List.range t.nrRows) ht hε hF hidle).mono fun _ hi _ =>
    Or.inl (List.mem_range.mpr hi)

/-! ## The invariant of the second phase -/

/-- A tableau of a descent in which the artificial columns take no part. -/
structure Closed (t : Tableau ℚ) : Prop extends Ready t where
  enterable_eq : t.enterable = t.firstArtificial
  cleared : ∀ i < t.nrRows, t.Cleared i
  idle : t.Idle

theorem Closed.pivot (ht : t.Closed) (h : t.Chosen c r) : (t.pivot c r).Closed where
  toReady := ht.toReady.pivot h
  enterable_eq := ht.enterable_eq
  cleared i hi := by
    rw [nrRows_pivot] at hi
    exact (ht.cleared i hi).pivot ht.toRectangular h.lt_nrRows h.entry_pos.ne'
      (h.lt_enterable.trans_eq ht.enterable_eq) hi
  idle := by
    have hcF : c < t.firstArtificial := h.lt_enterable.trans_eq ht.enterable_eq
    refine Idle.pivot hcF ?_
    intro i hi hir hb
    rw [(ht.cleared i hi).row_pivot ht.toRectangular h.lt_nrRows h.entry_pos.ne' hcF hir hb]
    exact ht.idle i hi hb

theorem Closed.of_step {t' : Tableau ℚ} (ht : t.Closed) (h : Step t t') : t'.Closed := by
  obtain ⟨c, r, hch, rfl⟩ := h.cases ht.toReady
  exact ht.pivot hch

namespace Closed

variable (ht : t.Closed)
include ht

/-- No artificial column takes part in the solutions along an edge. -/
theorem along_eq_zero (hc : c < t.enterable) (θ : ℚ) {j : ℕ} (hj : t.firstArtificial ≤ j) :
    t.along c θ j = 0 := by
  have hcF : c < t.firstArtificial := hc.trans_eq ht.enterable_eq
  have hjc : j ≠ c := (hcF.trans_le hj).ne'
  rw [along, if_neg hjc, add_zero]
  refine atBasis_eq_zero ?_
  intro i hi hb
  have hbF : t.firstArtificial ≤ t.basis i := hb ▸ hj
  simp [ht.idle i hi hbF, ht.cleared i hi hbF c hcF]

theorem point_eq_zero {j : ℕ} (hj : t.firstArtificial ≤ j) : t.point j = 0 :=
  atBasis_eq_zero fun i hi hb => ht.idle i hi (hb ▸ hj)

end Closed

end Tableau
end LinProg
