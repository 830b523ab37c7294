/-
The duals of a standard form, by the limits that they price.

An equation is its limit times a sign, so the dual of the equation times
that sign is the price of the limit.  The relative cost of a slack is its
price up to a sign; hence a price points one way only, and a limit with a
price leaves nothing over.
-/
import LinProg.Proofs.Simplex.SecondPhase
import LinProg.Proofs.StandardForm.Conversion

namespace LinProg

namespace Pending

variable {ps : List (Pending ℚ)} {duals : List ℚ}

/-- Limits with their prices: the duals of their equations, for the limits as they were before the
equations were flipped. -/
def priced (ps : List (Pending ℚ)) (duals : List ℚ) : List (Pending ℚ × ℚ) :=
  List.zipWith (fun p y => (p, p.flip * y)) ps duals

theorem mem_priced {e : Pending ℚ × ℚ} (he : e ∈ priced ps duals) :
    ∃ (k : ℕ) (p : Pending ℚ) (y : ℚ),
      ps[k]? = some p ∧ duals[k]? = some y ∧ e = (p, p.flip * y) := by
  obtain ⟨k, hk⟩ := List.getElem?_of_mem he
  rw [priced, List.getElem?_zipWith_eq_some] at hk
  obtain ⟨p, y, hp, hy, heq⟩ := hk
  exact ⟨k, p, y, hp, hy, heq.symm⟩

theorem fst_mem_of_mem_priced {e : Pending ℚ × ℚ} (he : e ∈ priced ps duals) : e.1 ∈ ps := by
  obtain ⟨k, p, y, hp, -, rfl⟩ := mem_priced he
  exact List.mem_of_getElem? hp

/-- What is computed from equations and duals is computed from limits and prices. -/
theorem map_zip_equations {β : Type} {width first : ℕ} {g : Equation ℚ × ℚ → β}
    {h : Pending ℚ × ℚ → β}
    (hgh : ∀ (k : ℕ) (p : Pending ℚ) (y : ℚ), ps[k]? = some p →
      g (p.equation width (slackColumn first ps k), y) = h (p, p.flip * y)) :
    ((equations width first ps).zip duals).map g = (priced ps duals).map h := by
  refine List.ext_getElem? ?_
  intro k
  rw [List.zip, priced, List.getElem?_map, List.getElem?_map, List.getElem?_zipWith,
    List.getElem?_zipWith, getElem?_equations]
  cases hp : ps[k]? with
  | none => rfl
  | some p =>
      cases duals[k]? with
      | none => rfl
      | some y => exact congrArg some (hgh k p y hp)

end Pending

namespace StandardForm.Layout

open Pending

variable {f : StandardForm ℚ} {structural : ℕ} {ps : List (Pending ℚ)}
variable (hf : f.Layout structural ps)
include hf

theorem reducedCost_structural {j : ℕ} (hj : j < structural) (duals : List ℚ) :
    f.reducedCost duals j
      = f.cost.getD j 0
        - ((priced ps duals).map fun e => e.2 * Sparse.weight e.1.coefficients j).sum := by
  rw [reducedCost, hf.equations]
  congr 2
  refine map_zip_equations ?_
  intro k p y hp
  simp only
  rw [hf.getD_coefficients_of_lt hp hj]
  ring

theorem reducedCost_slackColumn {duals : List ℚ} (hlen : duals.length = f.equations.length)
    {k : ℕ} {p : Pending ℚ} {s y : ℚ} (hp : ps[k]? = some p) (hs : p.slack = some s)
    (hy : duals[k]? = some y) :
    f.reducedCost duals (slackColumn structural ps k) = -(p.flip * y * s) := by
  have hk : k < f.equations.length := hlen ▸ (List.getElem?_eq_some_iff.mp hy).1
  have hterm : ∀ i q y', f.equations[i]? = some q → duals[i]? = some y' →
      y' * q.coefficients.getD (slackColumn structural ps k) 0
        = if i = k then p.flip * y * s else 0 := by
    intro i q y' hq hy'
    obtain ⟨p', hp', rfl⟩ := hf.exists_pending hq
    rw [hf.getD_coefficients_slackColumn hp hp' hs, mul_ite, mul_zero]
    by_cases hik : i = k
    · subst hik
      obtain rfl := Option.some.inj (hy'.symm.trans hy)
      rw [if_pos rfl, if_pos rfl]
      ring
    · rw [if_neg hik, if_neg hik]
  rw [reducedCost_eq_sum hlen.symm hterm, hf.cost _ le_slackColumn, Finset.sum_ite_eq',
    if_pos (Finset.mem_range.mpr hk), zero_sub]

/-- The price of a limit points away from what its slack allows, and is zero where something is
left over. -/
theorem complementary {b : BasicSolution ℚ} (hb : f.Optimal b) {e : Pending ℚ × ℚ}
    (he : e ∈ priced ps b.duals) :
    (∀ s, e.1.slack = some s → e.2 * s ≤ 0) ∧
      e.2 * (e.1.value - Sparse.dot e.1.coefficients b.values) = 0 := by
  obtain ⟨k, p, y, hp, hy, rfl⟩ := mem_priced he
  cases hs : p.slack with
  | none =>
      refine ⟨nofun, ?_⟩
      have hallows := hf.allows hb.solves (List.mem_of_getElem? hp)
      rw [(allows_iff_of_none hs).mp hallows, sub_self, mul_zero]
  | some s =>
      have hlt : slackColumn structural ps k < f.nrColumns :=
        hf.slackColumn_lt hp (by rw [hs]; rfl)
      have hreduced := hf.reducedCost_slackColumn hb.length_duals hp hs hy
      have hnonneg := hb.reducedCost_nonneg _ hlt
      have hzero := hb.complementary _ hlt
      rw [hreduced, ← hf.slack_eq hb.solves hp hs] at hzero
      rw [hreduced] at hnonneg
      refine ⟨?_, ?_⟩
      · intro s' hs'
        obtain rfl := Option.some.inj hs'
        linarith
      · simp only
        rcases (hf.fits_of_getElem? hp).slack s hs with rfl | rfl
        · linear_combination -hzero
        · linear_combination -hzero

end StandardForm.Layout
end LinProg
