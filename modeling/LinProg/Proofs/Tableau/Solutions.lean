/-
Solutions of the equations of a tableau, and what they cost.

A solution satisfies every vector of the row space.  Setting one column to
`θ` and the other columns outside the basis to zero gives the solution
`along c θ`; at `θ = 0` this is the basic solution.  The cost of a solution
is the objective plus what it owes to the relative costs (`Prices.cost_eq`),
from which both the optimality of a finished descent and the direction of
an unlimited one are read.
-/
import LinProg.Proofs.Tableau.Descent

namespace LinProg
namespace Tableau

variable {t t' : Tableau ℚ} {c : ℕ}

def Solves (t : Tableau ℚ) (z : ℕ → ℚ) : Prop :=
  ∀ w ∈ t.rowSpace, ∑ j ∈ Finset.range t.nrColumns, w j * z j = w t.nrColumns

theorem solves_of_rows {z : ℕ → ℚ}
    (h : ∀ i < t.nrRows,
      ∑ j ∈ Finset.range t.nrColumns, t.row i j * z j = t.row i t.nrColumns) : t.Solves z := by
  intro w hw
  induction hw using Submodule.span_induction with
  | mem w hw =>
      obtain ⟨i, rfl⟩ := hw
      rcases lt_or_ge i t.nrRows with hi | hi
      · exact h i hi
      · simp [row_of_ge hi]
  | zero => simp
  | add v w _ _ hv hw =>
      simp only [Pi.add_apply, add_mul, Finset.sum_add_distrib]
      rw [hv, hw]
  | smul a v _ hv =>
      simp only [Pi.smul_apply, smul_eq_mul, mul_assoc, ← Finset.mul_sum]
      rw [hv]

theorem Solves.row {z : ℕ → ℚ} (h : t.Solves z) (i : ℕ) :
    ∑ j ∈ Finset.range t.nrColumns, t.row i j * z j = t.row i t.nrColumns :=
  h _ (row_mem_rowSpace i)

theorem SameRows.solves_iff (h : SameRows t t') {z : ℕ → ℚ} : t'.Solves z ↔ t.Solves z := by
  rw [Solves, Solves, h.nrColumns, h.rowSpace]

/-! ## The cost of solutions -/

/-- The relative costs of a tableau express a cost: they differ from it by a combination of the
rows. -/
def Prices (t : Tableau ℚ) (cost : ℕ → ℚ) : Prop :=
  (fun j => if j < t.nrColumns then cost j else 0) - t.costRow ∈ t.rowSpace

theorem Prices.of_follows {cost : ℕ → ℚ} (h : t.Prices cost) (hf : Follows t t') :
    t'.Prices cost := by
  have hsub := Submodule.sub_mem _ h hf.costs
  rw [Prices, hf.nrColumns, hf.rowSpace]
  rwa [sub_sub_sub_cancel_right] at hsub

theorem Prices.cost_eq {cost z : ℕ → ℚ} (h : t.Prices cost) (hz : t.Solves z) :
    ∑ j ∈ Finset.range t.nrColumns, cost j * z j
      = ∑ j ∈ Finset.range t.nrColumns, t.costRow j * z j + t.objective := by
  have hsum := hz _ h
  simp only [Pi.sub_apply, sub_mul, Finset.sum_sub_distrib, lt_irrefl, if_false] at hsum
  have hcost : ∑ j ∈ Finset.range t.nrColumns, (if j < t.nrColumns then cost j else 0) * z j
      = ∑ j ∈ Finset.range t.nrColumns, cost j * z j := by
    refine Finset.sum_congr rfl ?_
    intro j hj
    rw [if_pos (Finset.mem_range.mp hj)]
  rw [hcost] at hsum
  rw [objective_eq]
  linarith

/-! ## Basic solutions and the edges that lead away from them -/

theorem length_foldl_values {n : ℕ} (value : Line ℚ → ℚ) (ls : List (Line ℚ)) (v : List ℚ) :
    (ls.foldl (fun v l => if l.basic < n then v.set l.basic (value l) else v) v).length
      = v.length := by
  induction ls generalizing v with
  | nil => rfl
  | cons l ls ih =>
      rw [List.foldl_cons, ih]
      split <;> simp

/-- The value that the lines of a basic column agree on is written at this column. -/
theorem getD_foldl_values {n j : ℕ} {value : Line ℚ → ℚ} {x : ℚ} {ls : List (Line ℚ)}
    {v : List ℚ} (hlen : v.length = n) (hj : j < n) (hx : ∀ l ∈ ls, l.basic = j → value l = x)
    (hv : v.getD j 0 = x ∨ ∃ l ∈ ls, l.basic = j) :
    (ls.foldl (fun v l => if l.basic < n then v.set l.basic (value l) else v) v).getD j 0
      = x := by
  induction ls generalizing v with
  | nil => simpa using hv
  | cons l ls ih =>
      have hls := fun l' hl' => hx l' (List.mem_cons_of_mem _ hl')
      rw [List.foldl_cons]
      by_cases hlj : l.basic = j
      · have hset : (v.set l.basic (value l)).getD j 0 = x := by
          rw [Dense.getD_set (by omega), if_pos hlj, hx l List.mem_cons_self hlj]
        rw [if_pos (by omega)]
        exact ih (by simpa using hlen) hls (Or.inl hset)
      · have hv' : v.getD j 0 = x ∨ ∃ l' ∈ ls, l'.basic = j := by
          rcases hv with hv | ⟨l', hl', hl'j⟩
          · exact Or.inl hv
          · rcases List.mem_cons.mp hl' with rfl | hl'
            · exact absurd hl'j hlj
            · exact Or.inr ⟨l', hl', hl'j⟩
        split
        · rename_i hlt
          refine ih (by simpa using hlen) hls ?_
          rwa [Dense.getD_set (by omega), if_neg hlj]
        · exact ih hlen hls hv'

/-- The values of the columns when each basic column has the value given for its row and the
others are zero. -/
def atBasis (t : Tableau ℚ) (u : ℕ → ℚ) (j : ℕ) : ℚ :=
  ∑ i ∈ Finset.range t.nrRows, if t.basis i = j then u i else 0

/-- The solution in which a column has the value `θ` and the other columns outside the basis are
zero. -/
def along (t : Tableau ℚ) (c : ℕ) (θ : ℚ) (j : ℕ) : ℚ :=
  t.atBasis (fun i => t.row i t.nrColumns - θ * t.row i c) j + if j = c then θ else 0

def point (t : Tableau ℚ) : ℕ → ℚ := t.atBasis fun i => t.row i t.nrColumns

theorem atBasis_eq_zero {u : ℕ → ℚ} {j : ℕ} (h : ∀ i < t.nrRows, t.basis i = j → u i = 0) :
    t.atBasis u j = 0 := by
  refine Finset.sum_eq_zero ?_
  intro i hi
  split
  · exact h i (Finset.mem_range.mp hi) ‹_›
  · rfl

theorem atBasis_nonneg {u : ℕ → ℚ} (h : ∀ i < t.nrRows, 0 ≤ u i) (j : ℕ) :
    0 ≤ t.atBasis u j := by
  refine Finset.sum_nonneg ?_
  intro i hi
  split
  · exact h i (Finset.mem_range.mp hi)
  · exact le_rfl

namespace Canonical

variable (ht : t.Canonical)
include ht

theorem atBasis_basis (u : ℕ → ℚ) {i : ℕ} (hi : i < t.nrRows) :
    t.atBasis u (t.basis i) = u i := by
  rw [atBasis, Finset.sum_eq_single i]
  · exact if_pos rfl
  · intro k hk hne
    exact if_neg fun h => hne (ht.basis_inj (Finset.mem_range.mp hk) hi h)
  · intro h
    exact absurd (Finset.mem_range.mpr hi) h

theorem sum_mul_atBasis (w u : ℕ → ℚ) :
    ∑ j ∈ Finset.range t.nrColumns, w j * t.atBasis u j
      = ∑ i ∈ Finset.range t.nrRows, w (t.basis i) * u i := by
  simp only [atBasis, Finset.mul_sum]
  rw [Finset.sum_comm]
  refine Finset.sum_congr rfl ?_
  intro i hi
  have hb : t.basis i ∈ Finset.range t.nrColumns :=
    Finset.mem_range.mpr (ht.basis_lt (Finset.mem_range.mp hi))
  simp [hb]

theorem sum_mul_along (w : ℕ → ℚ) (hc : c < t.nrColumns) (θ : ℚ) :
    ∑ j ∈ Finset.range t.nrColumns, w j * t.along c θ j
      = ∑ i ∈ Finset.range t.nrRows,
          w (t.basis i) * (t.row i t.nrColumns - θ * t.row i c) + w c * θ := by
  have hθ : ∑ j ∈ Finset.range t.nrColumns, w j * (if j = c then θ else 0) = w c * θ := by
    simp [hc]
  simp only [along, mul_add, Finset.sum_add_distrib]
  rw [ht.sum_mul_atBasis, hθ]

theorem solves_along (hc : c < t.nrColumns) (θ : ℚ) : t.Solves (t.along c θ) := by
  intro w hw
  rw [ht.sum_mul_along w hc θ]
  simp only [mul_sub, Finset.sum_sub_distrib, mul_left_comm _ θ, ← Finset.mul_sum]
  rw [← ht.expand hw, ← ht.expand hw]
  ring

theorem basicSolution_eq :
    t.basicSolution = (List.range t.firstArtificial).map t.point := by
  refine Dense.ext_getD ?_ ?_
  · simp [basicSolution, length_foldl_values]
  · intro j hj
    have hjF : j < t.firstArtificial := by
      simpa [basicSolution, length_foldl_values] using hj
    rw [Dense.getD_map_range t.point hjF]
    refine getD_foldl_values (by simp) hjF ?_ ?_
    · intro l hl hlj
      obtain ⟨i, hi, rfl⟩ := exists_line hl
      rw [← hlj]
      exact (ht.atBasis_basis (fun i => t.row i t.nrColumns) hi).symm
    · by_cases hbasic : ∃ l ∈ t.lines, l.basic = j
      · exact Or.inr hbasic
      · left
        have hzero : t.point j = 0 :=
          atBasis_eq_zero fun i hi hb => absurd ⟨t.line i, line_mem hi, hb⟩ hbasic
        rw [hzero, List.getD_eq_getElem?_getD]
        simp [hjF]

theorem point_of_not_basic {j : ℕ} (h : ¬ t.isInBasis j = true) : t.point j = 0 :=
  atBasis_eq_zero fun i hi hb => absurd ((ht.inBasis_iff j).mpr ⟨i, hi, hb⟩) h

theorem solves_point : t.Solves t.point := by
  intro w hw
  rw [point, ht.sum_mul_atBasis, ← ht.expand hw]

end Canonical

namespace Ready

variable (ht : t.Ready)
include ht

theorem point_nonneg (j : ℕ) : 0 ≤ t.point j := atBasis_nonneg ht.feasible j

theorem cost_point {cost : ℕ → ℚ} (h : t.Prices cost) :
    ∑ j ∈ Finset.range t.nrColumns, cost j * t.point j = t.objective := by
  rw [h.cost_eq ht.solves_point, point, ht.sum_mul_atBasis, Finset.sum_eq_zero, zero_add]
  intro i hi
  rw [ht.reduced i (Finset.mem_range.mp hi), zero_mul]

/-- Along an edge the cost changes at the rate of the relative cost. -/
theorem cost_along {cost : ℕ → ℚ} (h : t.Prices cost) (hc : c < t.nrColumns) (θ : ℚ) :
    ∑ j ∈ Finset.range t.nrColumns, cost j * t.along c θ j = t.objective + t.costRow c * θ := by
  rw [h.cost_eq (ht.solves_along hc θ), ht.sum_mul_along _ hc, Finset.sum_eq_zero]
  · ring
  · intro i hi
    rw [ht.reduced i (Finset.mem_range.mp hi), zero_mul]

theorem along_nonneg (h : ∀ i < t.nrRows, t.row i c ≤ 0) {θ : ℚ} (hθ : 0 ≤ θ) (j : ℕ) :
    0 ≤ t.along c θ j := by
  refine add_nonneg (atBasis_nonneg ?_ j) ?_
  · intro i hi
    have hle : θ * t.row i c ≤ 0 := mul_nonpos_of_nonneg_of_nonpos hθ (h i hi)
    linarith [ht.feasible i hi]
  · split
    · exact hθ
    · exact le_rfl

end Ready

end Tableau
end LinProg
