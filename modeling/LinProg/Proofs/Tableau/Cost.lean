/-
The writing of a cost into a tableau.

The rows of the columns that cost something are subtracted from the cost,
which makes the relative costs zero at the basis.  The rows stay as they
are.
-/
import LinProg.Proofs.Tableau.Solutions

namespace LinProg
namespace Tableau

variable {t : Tableau ℚ} {cost : List ℚ}

theorem sum_lines (t : Tableau ℚ) (g : Line ℚ → ℚ) :
    (t.lines.map g).sum = ∑ i ∈ Finset.range t.nrRows, g (t.line i) := by
  conv_lhs => rw [lines_eq_map, List.map_map]
  rfl

theorem length_foldl_cost {α : Type} [Scalar α] {cost : List α} {ls : List (Line α)} {d : List α}
    (h : ∀ l ∈ ls, l.entries.length = d.length) :
    (ls.foldl (fun costs l =>
        let c := cost.getD l.basic 0
        if Scalar.isZero c then costs
        else List.zipWith (fun d x => d - c * x) costs l.entries) d).length = d.length := by
  induction ls generalizing d with
  | nil => rfl
  | cons l ls ih =>
      have hl := h l List.mem_cons_self
      have hls := fun l' hl' => h l' (List.mem_cons_of_mem _ hl')
      simp only [List.foldl_cons]
      split
      · exact ih hls
      · have hlen : (List.zipWith (fun d x => d - cost.getD l.basic 0 * x) d l.entries).length
            = d.length := by simp [hl]
        rw [ih fun l' hl' => (hls l' hl').trans hlen.symm, hlen]

theorem getD_foldl_cost {ls : List (Line ℚ)} {d : List ℚ}
    (h : ∀ l ∈ ls, l.entries.length = d.length) (j : ℕ) :
    (ls.foldl (fun costs l =>
        let c := cost.getD l.basic 0
        if Scalar.isZero c then costs
        else List.zipWith (fun d x => d - c * x) costs l.entries) d).getD j 0
      = d.getD j 0 - (ls.map fun l => cost.getD l.basic 0 * l.entry j).sum := by
  induction ls generalizing d with
  | nil => simp
  | cons l ls ih =>
      have hl := h l List.mem_cons_self
      have hls := fun l' hl' => h l' (List.mem_cons_of_mem _ hl')
      simp only [List.foldl_cons, List.map_cons, List.sum_cons]
      split
      · rename_i hz
        rw [ih hls, (Scalar.isZero_iff _).mp hz]
        ring
      · have hlen : (List.zipWith (fun d x => d - cost.getD l.basic 0 * x) d l.entries).length
            = d.length := by simp [hl]
        rw [ih fun l' hl' => (hls l' hl').trans hlen.symm, Dense.getD_zipWith (by ring) hl.symm]
        rw [Line.entry]
        ring

theorem getD_unitCosts (n j : ℕ) (cost : List ℚ) :
    ((List.range n).map (fun j => cost.getD j 0) ++ [0]).getD j 0
      = if j < n then cost.getD j 0 else 0 := by
  rw [Dense.getD_append_singleton, List.length_map, List.length_range]
  rcases lt_trichotomy j n with h | h | h
  · rw [if_neg h.ne, if_pos h, List.getD_eq_getElem?_getD]
    simp [h]
  · simp [h]
  · rw [if_neg h.ne', if_neg h.not_gt, Dense.getD_eq_zero (by simp [h.le])]

theorem rowSpace_setCost : (t.setCost cost).rowSpace = t.rowSpace := rfl

theorem sameRows_setCost : SameRows t (t.setCost cost) := ⟨rfl, rfl, rfl, rfl, fun _ => rfl, rfl⟩

theorem costRow_setCost (ht : t.Rectangular) :
    (t.setCost cost).costRow = (fun j => if j < t.nrColumns then cost.getD j 0 else 0)
      - ∑ i ∈ Finset.range t.nrRows, cost.getD (t.basis i) 0 • t.row i := by
  funext j
  have hlen : ∀ l ∈ t.lines, l.entries.length
      = ((List.range t.nrColumns).map (fun j => cost.getD j 0) ++ [0]).length := by
    intro l hl
    simp [ht.lines l hl]
  refine (getD_foldl_cost hlen j).trans ?_
  rw [getD_unitCosts, sum_lines]
  simp only [Pi.sub_apply, Finset.sum_apply, Pi.smul_apply, smul_eq_mul]
  rfl

theorem prices_setCost (ht : t.Rectangular) :
    (t.setCost cost).Prices fun j => cost.getD j 0 := by
  rw [Prices, costRow_setCost ht, rowSpace_setCost]
  have hsum : ∑ i ∈ Finset.range t.nrRows, cost.getD (t.basis i) 0 • t.row i ∈ t.rowSpace :=
    Submodule.sum_mem _ fun i _ => Submodule.smul_mem _ _ (row_mem_rowSpace i)
  convert hsum using 1
  exact sub_sub_cancel _ _

theorem rectangular_setCost (ht : t.Rectangular) : (t.setCost cost).Rectangular where
  lines := ht.lines
  costs := by
    have hlen : ∀ l ∈ t.lines, l.entries.length
        = ((List.range t.nrColumns).map (fun j => cost.getD j 0) ++ [0]).length := by
      intro l hl
      simp [ht.lines l hl]
    refine (length_foldl_cost hlen).trans ?_
    simp [nrColumns, setCost]

theorem reduced_setCost (ht : t.Canonical) {k : ℕ} (hk : k < t.nrRows) :
    (t.setCost cost).costRow (t.basis k) = 0 := by
  have hb : t.basis k < t.nrColumns := ht.basis_lt hk
  have hsum : ∑ i ∈ Finset.range t.nrRows, cost.getD (t.basis i) 0 * t.row i (t.basis k)
      = cost.getD (t.basis k) 0 := by
    rw [Finset.sum_eq_single k]
    · rw [ht.row_basis_self hk, mul_one]
    · intro i _ hne
      rw [ht.row_basis_of_ne hk hne, mul_zero]
    · intro h
      exact absurd (Finset.mem_range.mpr hk) h
  rw [costRow_setCost ht.toRectangular]
  simp only [Pi.sub_apply, Finset.sum_apply, Pi.smul_apply, smul_eq_mul, hb, if_true, hsum,
    sub_self]

/-- A tableau with a feasible basis is ready for a descent once a cost is written into it. -/
theorem ready_setCost (ht : t.Canonical) (hε : t.epsilon = 0) (he : t.enterable ≤ t.nrColumns)
    (hv : ∀ i < t.nrRows, 0 ≤ t.row i t.nrColumns) : (t.setCost cost).Ready where
  toRectangular := rectangular_setCost ht.toRectangular
  unit_entry := ht.unit_entry
  inBasis_iff := ht.inBasis_iff
  exact := hε
  enterable_le := he
  feasible := hv
  reduced _ hk := reduced_setCost ht hk

end Tableau
end LinProg
