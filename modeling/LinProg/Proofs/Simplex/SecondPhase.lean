/-
The second phase of the simplex method, and the verdict.

The second phase descends on the cost of the standard form while the
artificial columns stay out.  Its last tableau carries the proof of the
verdict: the relative costs when no move is left, an edge when nothing
limits one.
-/
import LinProg.Proofs.Simplex.FirstPhase

namespace LinProg

namespace Tableau

variable {f : StandardForm ℚ} {t : Tableau ℚ}

theorem Restricted.of_reaches {t' : Tableau ℚ} (ht : Restricted f t) (h : Reaches t t') :
    Restricted f t' := by
  have hclosed : t'.Closed := by
    induction h with
    | refl => exact ht.toClosed
    | tail _ hstep ih => exact ih.of_step hstep
  have hfollows := h.follows ht.toReady
  exact ⟨hclosed, ht.sameRows.trans hfollows.toSameRows, ht.prices.of_follows hfollows⟩

/-! ## Relative costs and duals -/

namespace Prices

variable {ε : ℚ} (ht : t.Prices fun j => f.cost.getD j 0) (hs : SameRows (start f ε) t)
  (hf : f.Proper)
include ht hs hf

/-- What the cost of the standard form differs by from the relative costs is a combination of the
first rows.  The unit columns cost nothing, so their relative costs show its factors. -/
theorem cost_sub_costRow (j : ℕ) :
    (if j < t.nrColumns then f.cost.getD j 0 else 0) - t.costRow j
      = ∑ k ∈ Finset.range f.equations.length,
          -(t.costRow (t.unit k)) * (start f ε).row k j := by
  have hmem := ht
  rw [Prices, hs.rowSpace] at hmem
  have hexpand := (canonical_start hf).expand hmem j
  rw [Pi.sub_apply, nrRows_start] at hexpand
  rw [hexpand]
  refine Finset.sum_congr rfl ?_
  intro k hk
  have hk : k < (start f ε).nrRows := (Finset.mem_range.mp hk).trans_eq nrRows_start.symm
  obtain ⟨e, he⟩ := exists_equation hk
  have hcost : f.cost.getD ((start f ε).basis k) 0 = 0 := by
    rw [basis_start he]
    cases hb : e.basic with
    | some i => exact hf.cost_basic e (List.mem_of_getElem? he) i hb
    | none => exact Dense.getD_eq_zero (Nat.le_add_right _ _)
  rw [hs.unit, unit_start hk, Pi.sub_apply, hcost, ite_self, zero_sub]

omit ht hf in
theorem length_duals : t.duals.length = f.equations.length := by
  rw [duals, List.length_map]
  exact hs.nrRows.trans nrRows_start

omit ht hs hf in
theorem getElem?_duals {k : ℕ} {y : ℚ} (hy : t.duals[k]? = some y) :
    y = -(t.costRow (t.unit k)) := by
  rw [duals, List.getElem?_map] at hy
  obtain ⟨l, hl, rfl⟩ := Option.map_eq_some_iff.mp hy
  have hline : t.line k = l := by
    rw [line, List.getD_eq_getElem?_getD, hl]
    rfl
  rw [unit, hline]
  rfl

/-- The duals are these factors. -/
theorem reducedCost_duals {j : ℕ} (hj : j < f.nrColumns) :
    f.reducedCost t.duals j = t.costRow j := by
  have hterm : ∀ k q y, f.equations[k]? = some q → t.duals[k]? = some y →
      y * q.coefficients.getD j 0 = -(t.costRow (t.unit k)) * (start f ε).row k j := by
    intro k q y hq hy
    rw [getElem?_duals hy, row_start_of_lt hf hq hj]
  have hjn : j < t.nrColumns := by
    rw [hs.nrColumns]
    exact hj.trans_le firstArtificial_le_start
  rw [StandardForm.reducedCost_eq_sum (length_duals hs).symm hterm, ← cost_sub_costRow ht hs hf,
    if_pos hjn, sub_sub_cancel]

end Prices

namespace Restricted

variable (ht : Restricted f t) (hf : f.Proper)
include ht

theorem firstArtificial_eq : t.firstArtificial = f.nrColumns := ht.sameRows.firstArtificial

theorem nrColumns_le : f.nrColumns ≤ t.nrColumns := by
  rw [ht.sameRows.nrColumns]
  exact firstArtificial_le_start

include hf

/-- A solution without artificial columns is one of the standard form, at the same cost. -/
theorem solves_tabulate {z : ℕ → ℚ} (hz : t.Solves z) (hnonneg : ∀ j, 0 ≤ z j)
    (hzero : ∀ j, t.firstArtificial ≤ j → z j = 0) :
    f.Solves ((List.range f.nrColumns).map z) ∧
      f.value ((List.range f.nrColumns).map z)
        = ∑ j ∈ Finset.range t.nrColumns, f.cost.getD j 0 * z j := by
  have htab : (fun j => ((List.range f.nrColumns).map z).getD j 0) = z :=
    Dense.getD_tabulate fun j hj => hzero j (ht.firstArtificial_eq.trans_le hj)
  have hlen : ((List.range f.nrColumns).map z).length = f.nrColumns := by simp
  refine ⟨⟨hlen, ?_, ?_⟩, ?_⟩
  · intro j
    rw [congrFun htab j]
    exact hnonneg j
  · refine (solves_start_iff (ε := 0) hf hlen).mp ?_
    rw [htab]
    exact ht.sameRows.solves_iff.mp hz
  · rw [f.value_eq_sum ht.nrColumns_le]
    exact Finset.sum_congr rfl fun j _ => by rw [congrFun htab j]

theorem solves_solution :
    f.Solves t.solution.values ∧ f.value t.solution.values = t.objective := by
  have hvalues : t.solution.values = (List.range f.nrColumns).map t.point := by
    rw [solution, ht.basicSolution_eq, ht.firstArtificial_eq]
  rw [hvalues]
  obtain ⟨hsolves, hvalue⟩ := ht.solves_tabulate hf ht.solves_point ht.point_nonneg
    fun j hj => ht.point_eq_zero hj
  exact ⟨hsolves, hvalue.trans (ht.cost_point ht.prices)⟩

theorem reducedCost_eq {j : ℕ} (hj : j < f.nrColumns) :
    f.reducedCost t.solution.duals j = t.costRow j :=
  ht.prices.reducedCost_duals ht.sameRows hf hj

theorem optimal_solution (hmove : t.move = .finished) : f.Optimal t.solution := by
  obtain ⟨hsolves, hvalue⟩ := ht.solves_solution hf
  have hj : ∀ j < f.nrColumns, j < t.enterable := fun j hj =>
    hj.trans_eq (ht.firstArtificial_eq.symm.trans ht.enterable_eq.symm)
  refine ⟨hsolves, ?_, ?_, ?_, ?_⟩
  · intro y hy
    rw [hvalue, f.value_eq_sum ht.nrColumns_le]
    refine ht.objective_le_cost hmove ht.prices ?_ hy.nonneg ?_
    · exact ht.sameRows.solves_iff.mpr ((solves_start_iff hf hy.length).mpr hy.holds)
    · intro j _ hje
      refine Dense.getD_eq_zero (hy.length.trans_le ?_)
      rwa [ht.enterable_eq, ht.firstArtificial_eq] at hje
  · simp only [solution, duals, List.length_map]
    exact ht.sameRows.nrRows.trans nrRows_start
  · intro j hjn
    rw [ht.reducedCost_eq hf hjn]
    exact ht.costRow_nonneg hmove (hj j hjn)
  · intro j hjn
    rw [ht.reducedCost_eq hf hjn, solution, ht.basicSolution_eq, ht.firstArtificial_eq,
      Dense.getD_map_range t.point hjn]
    by_cases hbasic : t.isInBasis j = true
    · obtain ⟨i, hi, rfl⟩ := (ht.inBasis_iff j).mp hbasic
      rw [ht.reduced i hi, zero_mul]
    · rw [ht.point_of_not_basic hbasic, mul_zero]

theorem exists_solves_lt {c : ℕ} (hmove : t.move = .unlimited c) (K : ℚ) :
    ∃ y, f.Solves y ∧ f.value y < K := by
  obtain ⟨hcol, hrow⟩ := move_eq_unlimited hmove
  obtain ⟨hc, -, hneg, -⟩ := enteringColumn?_eq_some ht.exact hcol
  have hcn : c < t.nrColumns := hc.trans_le ht.enterable_le
  obtain ⟨θ, -, hnonneg, hlt⟩ := ht.exists_along_lt hcn hneg hrow ht.prices K
  obtain ⟨hsolves, hvalue⟩ := ht.solves_tabulate hf (ht.solves_along hcn θ) hnonneg
    fun j hj => ht.along_eq_zero hc θ hj
  exact ⟨_, hsolves, hvalue.trans_lt hlt⟩

end Restricted

end Tableau

/-! ## The verdict -/

namespace StandardForm

variable {f : StandardForm ℚ} {control : Control}

theorem secondPhase_sound (hf : f.Proper) {t : Tableau ℚ}
    (ht : Tableau.Restricted f (t.closeArtificial.setCost f.cost)) (control : Control)
    (log : List (ℕ × ℚ)) : f.Sound (t.secondPhase f.cost control log).verdict := by
  obtain ⟨hreach, hend⟩ := Tableau.descend_cases control log.length log ht.toReady
    (Tableau.card_le_moveBound t)
  have hlast := ht.of_reaches hreach
  simp only [Tableau.secondPhase]
  generalize Tableau.descend control t.moveBound log.length log
    (t.closeArtificial.setCost f.cost) = d at *
  rcases hend with ⟨hhalt, hmove⟩ | ⟨hhalt, c, hc⟩ | ⟨why, hhalt⟩
  · simp only [hhalt, Tableau.isSound_eq, if_true]
    exact hlast.optimal_solution hf hmove
  · simp only [hhalt]
    exact hlast.exists_solves_lt hf hc
  · simp only [hhalt]
    exact (hlast.solves_solution hf).1

/-- With exact arithmetic and without tolerances every verdict of the simplex method is right, and
the method comes to one. -/
theorem minimize_sound (hf : f.Proper) (control : Control) :
    f.Sound (f.minimize ⟨0, 0⟩ control).verdict := by
  simp only [minimize]
  split
  · rename_i v hv
    exact Tableau.firstPhase_error hf hv
  · rename_i redundant hok
    exact secondPhase_sound hf (Tableau.firstPhase_ok hf hok) control _

end StandardForm

end LinProg
