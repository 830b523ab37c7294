/-
Runs with tolerances.

A tolerance decides which entries, costs and artificial values count as zero,
and so where a run pivots and when it stops.  The equations it does not touch:
every pivot is on an entry that is not zero, so the tableau that a run ends on
states the equations it began with (`Restates`).  Its values miss an equation
by the value of the artificial column of that equation and by nothing else.

A run is therefore right up to a tolerance when no value has become negative
and no artificial column has grown above the tolerance (`Settled`).  Neither
is promised where entries that are not zero count as zero, or where a positive
artificial cost counts as zero.  Otherwise both are (`settled_of_exact`).
-/
import LinProg.Proofs.Simplex.SecondPhase

namespace LinProg

namespace Tableau

variable {f : StandardForm ℚ} {ε : ℚ} {t t' : Tableau ℚ} {c r : ℕ}

/-! ## The equations of a run -/

/-- A tableau that states the equations of a standard form in one of its bases, whatever counts as
zero. -/
structure Restates (f : StandardForm ℚ) (ε : ℚ) (t : Tableau ℚ) : Prop extends Canonical t where
  enterable_le : t.enterable ≤ t.nrColumns
  sameRows : SameRows (start f ε) t

theorem restates_start (hf : f.Proper) : Restates f ε (start f ε) where
  toCanonical := canonical_start hf
  enterable_le := nrColumns_start.ge
  sameRows := SameRows.refl _

namespace Restates

variable (ht : Restates f ε t)
include ht

theorem firstArtificial_eq : t.firstArtificial = f.nrColumns := ht.sameRows.firstArtificial

theorem firstArtificial_le : t.firstArtificial ≤ t.nrColumns := by
  rw [ht.sameRows.firstArtificial, ht.sameRows.nrColumns]
  exact firstArtificial_le_start

theorem nrColumns_le : f.nrColumns ≤ t.nrColumns :=
  ht.firstArtificial_eq.symm.trans_le ht.firstArtificial_le

theorem pivot (hr : r < t.nrRows) (hc : t.row r c ≠ 0) (hn : t.isInBasis c = false)
    (hcN : c < t.nrColumns) : Restates f ε (t.pivot c r) where
  toCanonical := ht.toCanonical.pivot hr hc hn hcN
  enterable_le := by
    rw [nrColumns_pivot]
    exact ht.enterable_le
  sameRows := ht.sameRows.trans (SameRows.pivot ht.toRectangular hr hc)

theorem setCost (cost : List ℚ) : Restates f ε (t.setCost cost) where
  toRectangular := rectangular_setCost ht.toRectangular
  unit_entry := ht.unit_entry
  inBasis_iff := ht.inBasis_iff
  enterable_le := ht.enterable_le
  sameRows := ht.sameRows.trans sameRows_setCost

theorem closeArtificial : Restates f ε t.closeArtificial where
  toRectangular := ⟨ht.lines, ht.costs⟩
  unit_entry := ht.unit_entry
  inBasis_iff := ht.inBasis_iff
  enterable_le := ht.firstArtificial_le
  sameRows := ⟨ht.sameRows.nrRows, ht.sameRows.nrColumns, ht.sameRows.firstArtificial,
    ht.sameRows.epsilon, ht.sameRows.unit, ht.sameRows.rowSpace⟩

variable (hε : 0 ≤ ε)
include hε

theorem of_step (h : Step t t') : Restates f ε t' := by
  obtain ⟨c, r, hmove, rfl⟩ := h
  obtain ⟨hc, hn, hr, hentry⟩ := entry_of_move hmove
  rw [ht.sameRows.epsilon] at hentry
  exact ht.pivot hr (hε.trans_lt hentry).ne' hn (hc.trans_le ht.enterable_le)

theorem of_reaches (h : Reaches t t') : Restates f ε t' := by
  induction h with
  | refl => exact ht
  | tail _ hstep ih => exact ih.of_step hε hstep

theorem descend (control : Control) (fuel asked : ℕ) (log : List (ℕ × ℚ)) :
    Restates f ε (descend control fuel asked log t).tableau :=
  ht.of_reaches hε (descend_spec control fuel asked log t).1

theorem expelOn (rows : List ℕ) : Restates f ε (expelOn rows t).1 := by
  induction rows generalizing t with
  | nil => exact ht
  | cons row rows ih =>
      rw [Tableau.expelOn]
      split
      · exact ih ht
      · rename_i l hl
        obtain ⟨hrow, rfl⟩ := List.getElem?_eq_some_iff.mp hl
        rw [← line_eq_getElem hrow]
        split
        · exact ih ht
        · split
          · rename_i c hcol
            obtain ⟨hcF, hn, hc⟩ := replacement?_eq_some (hε.trans_eq ht.sameRows.epsilon.symm) hcol
            exact ih (ht.pivot hrow hc hn (hcF.trans_le ht.firstArtificial_le))
          · exact ih ht

end Restates

theorem restates_firstPhase (hf : f.Proper) (hε : 0 ≤ ε) (feasibility : ℚ) (control : Control) :
    Restates f ε ((start f ε).firstPhase feasibility control).tableau := by
  have hstart : Restates f ε (start f ε) := restates_start hf
  have hdescend : Restates f ε (Tableau.descend control (start f ε).moveBound 0 []
      (start f ε).setArtificialCost).tableau := (hstart.setCost _).descend hε control _ 0 []
  rw [firstPhase]
  split
  · exact hstart
  · simp only
    split
    · exact hdescend
    · exact hdescend
    · exact hdescend
    · split
      · exact hdescend
      · split
        · exact hdescend.expelOn hε _
        · exact hdescend

/-! ## What the values miss -/

/-- A tableau without negative values, in which no artificial column is above a tolerance. -/
structure Settled (tolerance : ℚ) (t : Tableau ℚ) : Prop where
  nonneg : ∀ i < t.nrRows, 0 ≤ t.row i t.nrColumns
  artificial : ∀ i < t.nrRows, t.firstArtificial ≤ t.basis i → t.row i t.nrColumns ≤ tolerance

instance (tolerance : ℚ) (t : Tableau ℚ) : Decidable (t.Settled tolerance) :=
  decidable_of_iff
    ((∀ i < t.nrRows, 0 ≤ t.row i t.nrColumns) ∧
      ∀ i < t.nrRows, t.firstArtificial ≤ t.basis i → t.row i t.nrColumns ≤ tolerance)
    ⟨fun h => ⟨h.1, h.2⟩, fun h => ⟨h.nonneg, h.artificial⟩⟩

theorem Settled.point_nonneg {tolerance : ℚ} (hs : t.Settled tolerance) (j : ℕ) :
    0 ≤ t.point j := atBasis_nonneg hs.nonneg j

/-- The values of artificial columns, basic or not, are at most the tolerance. -/
theorem Settled.point_le {tolerance : ℚ} (hs : t.Settled tolerance) (ht : t.Canonical)
    (htolerance : 0 ≤ tolerance) {j : ℕ} (hj : t.firstArtificial ≤ j) : t.point j ≤ tolerance := by
  by_cases hbasic : t.isInBasis j = true
  · obtain ⟨i, hi, rfl⟩ := (ht.inBasis_iff j).mp hbasic
    rw [point, ht.atBasis_basis _ hi]
    exact hs.artificial i hi hj
  · rwa [ht.point_of_not_basic hbasic]

namespace Restates

variable (ht : Restates f ε t) (hf : f.Proper)
include ht

theorem values_solution : t.solution.values = (List.range f.nrColumns).map t.point := by
  rw [solution, ht.basicSolution_eq, ht.firstArtificial_eq]

theorem take_point : ((List.range t.nrColumns).map t.point).take f.nrColumns = t.basicSolution := by
  rw [ht.basicSolution_eq, ← List.map_take, List.take_range,
    min_eq_left ht.nrColumns_le, ht.firstArtificial_eq]

include hf

/-- What an equation is missed by is the value of its artificial column, if it has one. -/
theorem value_sub_dot {i : ℕ} {q : Equation ℚ} (hq : f.equations[i]? = some q) :
    q.value - Dense.dot q.coefficients t.solution.values
      = if q.basic = none then t.point (nextArtificial f.nrColumns f.equations i) else 0 := by
  have hwidth : q.coefficients.length = f.nrColumns := hf.width q (List.mem_of_getElem? hq)
  have hrow := (ht.sameRows.solves_iff.mp ht.solves_point).row i
  rw [sum_row_start hf hq, row_start hf hq, if_pos rfl] at hrow
  have hdot : Dense.dot q.coefficients t.solution.values
      = ∑ j ∈ Finset.range (start f ε).nrColumns, q.coefficients.getD j 0 * t.point j := by
    rw [Dense.dot_eq_sum (hwidth.trans_le firstArtificial_le_start), ht.values_solution]
    refine Finset.sum_congr rfl ?_
    intro j _
    rcases lt_or_ge j f.nrColumns with hj | hj
    · rw [Dense.getD_map_range t.point hj]
    · rw [Dense.getD_eq_zero (hwidth.trans_le hj), zero_mul, zero_mul]
  rw [hdot, ← hrow, add_sub_cancel_left]

theorem solvesWithin {tolerance : ℚ} (htolerance : 0 ≤ tolerance) (hs : t.Settled tolerance) :
    f.SolvesWithin tolerance t.solution.values where
  length := by rw [ht.values_solution, List.length_map, List.length_range]
  nonneg j := by
    rw [ht.values_solution]
    refine Dense.getD_nonneg ?_ j
    intro v hv
    obtain ⟨k, -, rfl⟩ := List.mem_map.mp hv
    exact hs.point_nonneg k
  close q hq := by
    obtain ⟨i, hi⟩ := List.getElem?_of_mem hq
    rw [ht.value_sub_dot hf hi]
    split
    · rw [abs_of_nonneg (hs.point_nonneg _)]
      exact hs.point_le ht.toCanonical htolerance
        (ht.firstArtificial_eq.trans_le (Nat.le_add_right _ _))
    · rwa [abs_zero]

end Restates

end Tableau

namespace StandardForm

variable {α : Type} [Scalar α]

/-- The last tableau of a run, if it comes to the second phase. -/
def last? (tolerances : Tolerances α) (control : Control) (f : StandardForm α) :
    Option (Tableau α) :=
  let first := (Tableau.start f tolerances.pivot).firstPhase tolerances.feasibility control
  match first.result with
  | .error _ => none
  | .ok _ => some (Tableau.descend control first.tableau.moveBound first.log.length first.log
      (first.tableau.closeArtificial.setCost f.cost)).tableau

end StandardForm

namespace Tableau

variable {f : StandardForm ℚ} {t : Tableau ℚ} {tolerances : Tolerances ℚ} {control : Control}

theorem restates_of_last? (hf : f.Proper) (hε : 0 ≤ tolerances.pivot)
    (h : f.last? tolerances control = some t) : Restates f tolerances.pivot t := by
  rw [StandardForm.last?] at h
  split at h
  · cases h
  · cases h
    have hfirst := restates_firstPhase hf hε tolerances.feasibility control
    exact (hfirst.closeArtificial.setCost f.cost).descend hε control _ _ _

/-! ## Where nothing counts as zero that is not -/

/-- Where the equations have a solution it makes no difference up to which artificial cost they
count as satisfied. -/
theorem firstPhase_eq_of_solves (hf : f.Proper) {feasibility : ℚ} (hnonneg : 0 ≤ feasibility)
    (hsolves : 0 < feasibility → ∃ y, f.Solves y) (control : Control) :
    (start f 0).firstPhase feasibility control = (start f 0).firstPhase 0 control := by
  obtain ⟨hreach, hend⟩ := descend_cases control 0 [] (ready_first hf)
    (card_le_moveBound (start f 0))
  have hrelaxed := relaxed_of_reaches hf hreach
  simp only [firstPhase]
  generalize descend control (start f 0).moveBound 0 [] (start f 0).setArtificialCost = d at *
  -- a descent that is finished above zero shows that there is no solution
  have hcost : d.halt = .finished →
      (d.tableau.objective ≤ feasibility ↔ d.tableau.objective ≤ 0) := by
    intro hhalt
    have hmove : d.tableau.move = .finished := by
      rcases hend with ⟨-, hmove⟩ | ⟨hunlimited, -⟩ | ⟨why, hinterrupted⟩
      · exact hmove
      · exact absurd (hhalt.symm.trans hunlimited) nofun
      · exact absurd (hhalt.symm.trans hinterrupted) nofun
    refine ⟨fun hle => ?_, fun hle => hle.trans hnonneg⟩
    by_contra hpos
    obtain ⟨y, hy⟩ := hsolves ((not_le.mp hpos).trans_le hle)
    exact hrelaxed.not_solves hf hmove (not_le.mp hpos) y hy
  cases hhalt : d.halt with
  | finished => simp only [hcost hhalt]
  | unlimited => rfl
  | interrupted why => rfl
  | exhausted => rfl

/-- Without a tolerance on the pivots a run settles, if the equations have a solution or the
artificial cost has to be zero. -/
theorem settled_of_exact (hf : f.Proper) (hpivot : tolerances.pivot = 0)
    (hnonneg : 0 ≤ tolerances.feasibility)
    (hsolves : 0 < tolerances.feasibility → ∃ y, f.Solves y)
    (h : f.last? tolerances control = some t) : t.Settled tolerances.feasibility := by
  rw [StandardForm.last?, hpivot, firstPhase_eq_of_solves hf hnonneg hsolves] at h
  split at h
  · cases h
  · rename_i redundant hok
    have hlast : Restricted f t := by
      rw [← Option.some.inj h]
      exact (firstPhase_ok hf hok).of_reaches (descend_spec control _ _ _ _).1
    refine ⟨hlast.feasible, fun i hi hb => ?_⟩
    rw [hlast.idle i hi hb]
    exact hnonneg

end Tableau
end LinProg
