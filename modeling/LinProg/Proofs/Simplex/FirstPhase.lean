/-
The first phase of the simplex method.

It minimises the cost of the artificial columns.  That cost is zero for
every solution of the standard form, so when the descent ends above zero
there is none.  When it ends at zero the artificial columns are zero; they
are taken out of the basis as far as the rows allow, and the tableau is
ready for the cost of the standard form (`Restricted`).
-/
import LinProg.Proofs.Simplex.Descend
import LinProg.Proofs.Tableau.Artificial
import LinProg.Proofs.Tableau.Start

namespace LinProg

namespace Tableau

variable {f : StandardForm ℚ} {t : Tableau ℚ} {control : Control}

/-! ## The artificial cost -/

def artificialCost (t : Tableau ℚ) : List ℚ :=
  (List.range t.nrColumns).map fun j => if t.firstArtificial ≤ j then 1 else 0

theorem getD_artificialCost (t : Tableau ℚ) (j : ℕ) :
    t.artificialCost.getD j 0
      = if j < t.nrColumns ∧ t.firstArtificial ≤ j then 1 else 0 := by
  rcases lt_or_ge j t.nrColumns with h | h
  · simp [artificialCost, List.getD_eq_getElem?_getD, h]
  · rw [Dense.getD_eq_zero (by simpa [artificialCost] using h), if_neg]
    exact fun hj => absurd hj.1 (not_lt.mpr h)

theorem artificialCost_nonneg (t : Tableau ℚ) (j : ℕ) : 0 ≤ t.artificialCost.getD j 0 := by
  rw [getD_artificialCost]
  split
  · exact zero_le_one
  · exact le_rfl

theorem artificialCost_of_sameRows {t' : Tableau ℚ} (h : SameRows t t') :
    t'.artificialCost = t.artificialCost := by
  rw [artificialCost, artificialCost, h.nrColumns, h.firstArtificial]

/-- A tableau of the descent of the first phase. -/
structure Relaxed (f : StandardForm ℚ) (t : Tableau ℚ) : Prop extends Ready t where
  sameRows : SameRows (start f 0) t
  enterable_eq : t.enterable = t.nrColumns
  prices : t.Prices fun j => t.artificialCost.getD j 0

theorem ready_first (hf : f.Proper) : (start f 0).setArtificialCost.Ready :=
  ready_setCost (canonical_start hf) rfl nrColumns_start.ge fun _ hi => value_start_nonneg hf hi

theorem relaxed_of_reaches (hf : f.Proper) (h : Reaches (start f 0).setArtificialCost t) :
    Relaxed f t := by
  have hfollows := h.follows (ready_first hf)
  have hrows : SameRows (start f 0) t := sameRows_setCost.trans hfollows.toSameRows
  refine ⟨h.ready (ready_first hf), hrows, ?_, ?_⟩
  · rw [hfollows.enterable, hrows.nrColumns]
    exact nrColumns_start.symm
  · rw [artificialCost_of_sameRows hrows]
    exact (prices_setCost (rectangular_start hf)).of_follows hfollows

namespace Relaxed

variable (ht : Relaxed f t)
include ht

/-- In the first phase every profitable column has a row to enter on. -/
theorem exists_leavingRow {c : ℕ} (hc : c < t.nrColumns) (hneg : t.costRow c < 0) :
    ∃ r, t.leavingRow? c = some r :=
  ht.toReady.exists_leavingRow hc hneg ht.prices t.artificialCost_nonneg

theorem move_ne_unlimited (c : ℕ) : t.move ≠ .unlimited c := by
  intro h
  obtain ⟨hcol, hrow⟩ := move_eq_unlimited h
  obtain ⟨hc, -, hneg, -⟩ := enteringColumn?_eq_some ht.exact hcol
  obtain ⟨r, hr⟩ := ht.exists_leavingRow (hc.trans_le ht.enterable_le) hneg
  rw [hrow] at hr
  cases hr

theorem firstArtificial_eq : t.firstArtificial = f.nrColumns := ht.sameRows.firstArtificial

theorem firstArtificial_le : t.firstArtificial ≤ t.nrColumns := by
  rw [ht.sameRows.firstArtificial, ht.sameRows.nrColumns]
  exact firstArtificial_le_start

/-- When the artificial cost is not positive the artificial columns are zero. -/
theorem idle (h : t.objective ≤ 0) : t.Idle := by
  have hcost := ht.cost_point ht.prices
  rw [point, ht.sum_mul_atBasis] at hcost
  have hnonneg : ∀ i ∈ Finset.range t.nrRows,
      0 ≤ t.artificialCost.getD (t.basis i) 0 * t.row i t.nrColumns := fun i hi =>
    mul_nonneg (t.artificialCost_nonneg _) (ht.feasible i (Finset.mem_range.mp hi))
  have hzero := (Finset.sum_eq_zero_iff_of_nonneg hnonneg).mp
    (le_antisymm (hcost.trans_le h) (Finset.sum_nonneg hnonneg))
  intro i hi hb
  have hi0 := hzero i (Finset.mem_range.mpr hi)
  rwa [getD_artificialCost, if_pos ⟨ht.basis_lt hi, hb⟩, one_mul] at hi0

/-- A solution of the standard form has no artificial cost, so the descent would have got there. -/
theorem not_solves (hf : f.Proper) (hmove : t.move = .finished) (hobj : 0 < t.objective)
    (y : List ℚ) : ¬ f.Solves y := by
  intro hy
  have hz : t.Solves fun j => y.getD j 0 :=
    ht.sameRows.solves_iff.mpr ((solves_start_iff hf hy.length).mpr hy.holds)
  have hcost : ∑ j ∈ Finset.range t.nrColumns, t.artificialCost.getD j 0 * y.getD j 0 = 0 := by
    refine Finset.sum_eq_zero ?_
    intro j _
    rw [getD_artificialCost]
    rcases lt_or_ge j f.nrColumns with hj | hj
    · rw [if_neg fun h => absurd hj (not_lt.mpr (ht.firstArtificial_eq ▸ h.2)), zero_mul]
    · rw [Dense.getD_eq_zero (hy.length.trans_le hj), mul_zero]
  have hle := ht.objective_le_cost hmove ht.prices hz hy.nonneg fun j hj hje =>
    absurd hj (not_lt.mpr (ht.enterable_eq ▸ hje))
  rw [hcost] at hle
  exact absurd hobj (not_lt.mpr hle)

end Relaxed

theorem isSound_eq (t : Tableau ℚ) : t.isSound = true := by
  simp [isSound]

theorem firstPhase_cases (hf : f.Proper) (control : Control) :
    let p := (start f 0).firstPhase 0 control
    ((start f 0).nrColumns = (start f 0).firstArtificial ∧ p.result = .ok [] ∧
        p.tableau = start f 0) ∨
      (∃ why, p.result = .error (.interrupted why none)) ∨
      ∃ t, Relaxed f t ∧ t.move = .finished ∧
        ((0 < t.objective ∧ p.result = .error .infeasible) ∨
          (t.objective ≤ 0 ∧ p.result = .ok t.expelArtificial.2 ∧
            p.tableau = t.expelArtificial.1)) := by
  intro p
  by_cases hnone : (start f 0).nrColumns = (start f 0).firstArtificial
  · have hp : p = ⟨.ok [], start f 0, []⟩ := if_pos (nrColumns_start.symm.trans hnone)
    exact Or.inl ⟨hnone, by rw [hp], by rw [hp]⟩
  · right
    obtain ⟨hreach, hend⟩ := descend_cases control 0 [] (ready_first hf)
      (card_le_moveBound (start f 0))
    have hrelaxed := relaxed_of_reaches hf hreach
    have hp : p = _ := if_neg fun h => hnone (nrColumns_start.trans h)
    simp only at hp
    generalize descend control (start f 0).moveBound 0 [] (start f 0).setArtificialCost = d at *
    rcases hend with ⟨hhalt, hmove⟩ | ⟨-, c, hc⟩ | ⟨why, hhalt⟩
    · rw [hhalt] at hp
      simp only [isSound_eq, Bool.not_true, Bool.false_eq_true, if_false] at hp
      refine Or.inr ⟨d.tableau, hrelaxed, hmove, ?_⟩
      rcases le_or_gt d.tableau.objective 0 with hobj | hobj
      · rw [if_pos hobj] at hp
        exact Or.inr ⟨hobj, by rw [hp], by rw [hp]⟩
      · rw [if_neg (not_le.mpr hobj)] at hp
        exact Or.inl ⟨hobj, by rw [hp]⟩
    · exact absurd hc (hrelaxed.move_ne_unlimited c)
    · rw [hhalt] at hp
      exact Or.inl ⟨why, by rw [hp]⟩

theorem firstPhase_error (hf : f.Proper) {v : Verdict ℚ}
    (h : ((start f 0).firstPhase 0 control).result = .error v) : f.Sound v := by
  rcases firstPhase_cases hf control with ⟨-, hok, -⟩ | ⟨why, hwhy⟩ | ⟨t, ht, hmove, hend⟩
  · rw [hok] at h
    cases h
  · rw [hwhy] at h
    cases h
    trivial
  · rcases hend with ⟨hobj, herr⟩ | ⟨-, hok, -⟩
    · rw [herr] at h
      cases h
      exact ht.not_solves hf hmove hobj
    · rw [hok] at h
      cases h

/-! ## What the second phase starts from -/

/-- A tableau of the descent of the second phase. -/
structure Restricted (f : StandardForm ℚ) (t : Tableau ℚ) : Prop extends Closed t where
  sameRows : SameRows (start f 0) t
  prices : t.Prices fun j => f.cost.getD j 0

/-- Writing the cost after the first phase keeps the artificial columns out. -/
theorem restricted_of_cleared (ht : t.Canonical) (hs : SameRows (start f 0) t)
    (hv : ∀ i < t.nrRows, 0 ≤ t.row i t.nrColumns) (hidle : t.Idle)
    (hclr : ∀ i < t.nrRows, t.Cleared i) :
    Restricted f (t.closeArtificial.setCost f.cost) where
  toReady := by
    have hF : t.firstArtificial ≤ t.nrColumns := by
      rw [hs.firstArtificial, hs.nrColumns]
      exact firstArtificial_le_start
    exact ready_setCost (t := t.closeArtificial)
      ⟨⟨ht.lines, ht.costs⟩, ht.unit_entry, ht.inBasis_iff⟩ hs.epsilon hF hv
  enterable_eq := rfl
  cleared := hclr
  idle := hidle
  sameRows := ⟨hs.nrRows, hs.nrColumns, hs.firstArtificial, hs.epsilon, hs.unit, hs.rowSpace⟩
  prices := prices_setCost (t := t.closeArtificial) ⟨ht.lines, ht.costs⟩

/-- Where the first phase finds a solution it hands a tableau to the second in which the
artificial columns take no part. -/
theorem firstPhase_ok (hf : f.Proper) {redundant : List ℕ}
    (h : ((start f 0).firstPhase 0 control).result = .ok redundant) :
    Restricted f
      (((start f 0).firstPhase 0 control).tableau.closeArtificial.setCost f.cost) := by
  rcases firstPhase_cases hf control with ⟨hnone, -, ht⟩ | ⟨why, hwhy⟩ | ⟨t, ht, hmove, hend⟩
  · have hcan := canonical_start (ε := 0) hf
    have hlt : ∀ i < (start f 0).nrRows, ¬ (start f 0).firstArtificial ≤ (start f 0).basis i :=
      fun i hi => not_le.mpr ((hcan.basis_lt hi).trans_eq hnone)
    rw [ht]
    exact restricted_of_cleared hcan (SameRows.refl _)
      (fun i hi => value_start_nonneg hf hi) (fun i hi hb => absurd hb (hlt i hi))
      fun i hi hb => absurd hb (hlt i hi)
  · rw [hwhy] at h
    cases h
  · rcases hend with ⟨-, herr⟩ | ⟨hobj, -, htab⟩
    · rw [herr] at h
      cases h
    · have hex := expelArtificial_spec ht.toCanonical ht.exact ht.firstArtificial_le
        (ht.idle hobj)
      rw [htab]
      refine restricted_of_cleared hex.canonical (ht.sameRows.trans hex.sameRows) ?_ hex.idle ?_
      · intro i hi
        rw [hex.sameRows.nrRows] at hi
        rw [hex.value i]
        exact ht.feasible i hi
      · intro i hi
        rw [hex.sameRows.nrRows] at hi
        exact hex.cleared i hi trivial

end Tableau

end LinProg
