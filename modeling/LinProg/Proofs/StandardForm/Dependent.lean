/-
Equations that are combinations of others.

An equation is read as one vector, its coefficients followed by its value, so
that one which is a combination of others follows from them.  That it depends
on others is the same as a combination of all equations that is zero and in
which it takes part.
-/
import LinProg.Proofs.StandardForm.Basic

namespace LinProg
namespace StandardForm

variable {f : StandardForm ℚ} {i : ℕ}

/-- The coefficients of an equation by column and then its value; past the last equation zero. -/
def augmented (f : StandardForm ℚ) (i j : ℕ) : ℚ :=
  ((f.equations.map fun q => q.coefficients ++ [q.value]).getD i []).getD j 0

theorem augmented_eq (hf : f.Proper) {q : Equation ℚ} (hq : f.equations[i]? = some q) (j : ℕ) :
    f.augmented i j = if j = f.nrColumns then q.value else q.coefficients.getD j 0 := by
  have hrow : (f.equations.map fun q => q.coefficients ++ [q.value]).getD i []
      = q.coefficients ++ [q.value] := by
    rw [List.getD_eq_getElem?_getD, List.getElem?_map, hq]
    rfl
  rw [augmented, hrow, Dense.getD_append_singleton, hf.width q (List.mem_of_getElem? hq)]

/-- An equation is a combination of given ones. -/
def DependsOn (f : StandardForm ℚ) (S : Set ℕ) (i : ℕ) : Prop :=
  f.augmented i ∈ Submodule.span ℚ (f.augmented '' S)

def others (f : StandardForm ℚ) (i : ℕ) : Set ℕ := {k | k < f.nrRows ∧ k ≠ i}

/-- A combination that is zero and in which an equation takes part gives this equation by the
others that take part. -/
theorem dependsOn_of_sum {factors : ℕ → ℚ} {S : Set ℕ} (hi : i < f.nrRows) (hne : factors i ≠ 0)
    (hS : ∀ k < f.nrRows, k ≠ i → factors k ≠ 0 → k ∈ S)
    (h : ∑ k ∈ Finset.range f.nrRows, factors k • f.augmented k = 0) : f.DependsOn S i := by
  rw [← Finset.add_sum_erase _ _ (Finset.mem_range.mpr hi), add_eq_zero_iff_eq_neg] at h
  have hsolved : f.augmented i
      = (factors i)⁻¹ • -∑ k ∈ (Finset.range f.nrRows).erase i, factors k • f.augmented k := by
    rw [← h, smul_smul, inv_mul_cancel₀ hne, one_smul]
  rw [DependsOn, hsolved]
  refine Submodule.smul_mem _ _ (Submodule.neg_mem _ (Submodule.sum_mem _ ?_))
  intro k hk
  obtain ⟨hki, hk⟩ := Finset.mem_erase.mp hk
  by_cases hzero : factors k = 0
  · rw [hzero, zero_smul]
    exact Submodule.zero_mem _
  · refine Submodule.smul_mem _ _ (Submodule.subset_span ?_)
    exact Set.mem_image_of_mem _ (hS k (Finset.mem_range.mp hk) hki hzero)

theorem sum_augmented_eq {l : ℕ →₀ ℚ} (hl : ∀ k ∈ l.support, k < f.nrRows) :
    ∑ k ∈ Finset.range f.nrRows, l k • f.augmented k
      = Finsupp.linearCombination ℚ f.augmented l := by
  rw [Finsupp.linearCombination_apply]
  exact (Finsupp.sum_of_support_subset l (fun k hk => Finset.mem_range.mpr (hl k hk))
    (fun k a => a • f.augmented k) fun _ _ => zero_smul ℚ _).symm

/-- An equation that depends on the others takes part in a combination that is zero. -/
theorem DependsOn.exists_sum (hi : i < f.nrRows) (h : f.DependsOn (f.others i) i) :
    ∃ factors : ℕ → ℚ, factors i ≠ 0 ∧
      ∑ k ∈ Finset.range f.nrRows, factors k • f.augmented k = 0 := by
  obtain ⟨l, hl, hsum⟩ := (Finsupp.mem_span_image_iff_linearCombination ℚ).mp h
  rw [Finsupp.mem_supported] at hl
  have hlast : l i = 0 := by
    by_contra hne
    exact (hl (Finsupp.mem_support_iff.mpr hne)).2 rfl
  have hrange := (sum_augmented_eq fun k hk => (hl hk).1).trans hsum
  refine ⟨fun k => l k - if k = i then 1 else 0, by simp [hlast], ?_⟩
  simp only [sub_smul, Finset.sum_sub_distrib, hrange, ite_smul, one_smul, zero_smul,
    Finset.sum_ite_eq', Finset.mem_range, if_pos hi, sub_self]

end StandardForm
end LinProg
