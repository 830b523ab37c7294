/-
What the relative costs are, at every tableau of a run.

A cost is written into a tableau from scratch, for whatever columns are basic
then, and afterwards brought along by the pivots.  Both ways the relative costs
are the cost less a combination of the rows, and zero at the basis (`Priced`).
The objective is then the cost of the basic columns at their values.

The factors of the combination can be read off: the column that was the unit
vector of an equation at the start costs nothing in the second phase, and its
relative cost is minus the factor of this equation.  That is all that makes
the duals right; it needs no tolerance to be zero and no value to be
nonnegative, but every pivot must be on an entry that is not zero.
-/
import Mathlib
import LinProg.Proofs.Simplex.Bookkeeping
import LinProg.Proofs.Simplex.Represented

namespace LinProg

namespace Tableau

variable {f : StandardForm ℚ} {ε : ℚ} {cost : List ℚ} {t : Tableau ℚ} {c r : ℕ}

/-! ## Costs that the relative costs express -/

/-- A tableau for the equations of a standard form whose relative costs express a cost in its
basis. -/
structure Priced (f : StandardForm ℚ) (ε : ℚ) (cost : List ℚ) (t : Tableau ℚ) : Prop
    extends Restates f ε t where
  reduced : ∀ i < t.nrRows, t.costRow (t.basis i) = 0
  prices : t.Prices fun j => cost.getD j 0

theorem costRow_start (f : StandardForm ℚ) (ε : ℚ) : (start f ε).costRow = 0 := by
  funext j
  show (List.replicate _ (0 : ℚ)).getD j 0 = 0
  simp only [List.getD_eq_getElem?_getD, List.getElem?_replicate]
  split <;> rfl

theorem priced_start (hf : f.Proper) : Priced f ε [] (start f ε) where
  toRestates := restates_start hf
  reduced i _ := by rw [costRow_start, Pi.zero_apply]
  prices := by
    have hzero : (fun j => if j < (start f ε).nrColumns then ([] : List ℚ).getD j 0 else 0)
        - (start f ε).costRow = 0 := by
      rw [costRow_start]
      funext j
      simp
    rw [Prices, hzero]
    exact Submodule.zero_mem _

theorem Restates.priced_setCost (ht : Restates f ε t) (cost : List ℚ) :
    Priced f ε cost (t.setCost cost) where
  toRestates := ht.setCost cost
  reduced _ hi := reduced_setCost ht.toCanonical hi
  prices := prices_setCost ht.toRectangular

theorem Restates.priced_setArtificialCost (ht : Restates f ε t) :
    Priced f ε (start f ε).artificialCost t.setArtificialCost := by
  rw [← artificialCost_of_sameRows ht.sameRows]
  exact ht.priced_setCost t.artificialCost

namespace Priced

variable (ht : Priced f ε cost t)
include ht

theorem pivot (hr : r < t.nrRows) (hc : t.row r c ≠ 0) (hn : t.isInBasis c = false)
    (hcN : c < t.nrColumns) : Priced f ε cost (t.pivot c r) where
  toRestates := ht.toRestates.pivot hr hc hn hcN
  reduced i hi := by
    rw [nrRows_pivot] at hi
    exact ht.toCanonical.reduced_pivot ht.reduced hr hc hi
  prices := ht.prices.of_follows (Follows.pivot ht.toRectangular hr hc)

theorem objective_eq_sum :
    t.objective = ∑ j ∈ Finset.range t.nrColumns, cost.getD j 0 * t.point j := by
  rw [ht.prices.cost_eq ht.solves_point, point, ht.sum_mul_atBasis, Finset.sum_eq_zero, zero_add]
  intro i hi
  rw [ht.reduced i (Finset.mem_range.mp hi), zero_mul]

end Priced

/-! ## The first phase -/

/-- The objective is the sum of the values of the artificial columns, of which only the basic ones
can have another value than zero. -/
def TotalsArtificial (f : StandardForm ℚ) (t : Tableau ℚ) : Prop :=
  ∃ z, t.Basic z ∧ z.take f.nrColumns = t.basicSolution ∧ t.objective = (z.drop f.nrColumns).sum

theorem sum_drop_map_range (g : ℕ → ℚ) {k n : ℕ} (hk : k ≤ n) :
    (((List.range n).map g).drop k).sum
      = ∑ j ∈ Finset.range n, (if j < n ∧ k ≤ j then 1 else 0) * g j := by
  obtain ⟨b, rfl⟩ := Nat.exists_eq_add_of_le hk
  have hdrop : ((List.range (k + b)).map g).drop k = (List.range b).map fun i => g (k + i) := by
    have hlength : ((List.range k).map g).length = k := by rw [List.length_map, List.length_range]
    rw [List.range_add, List.map_append, List.drop_append_of_le_length hlength.ge,
      List.drop_of_length_le hlength.le, List.nil_append, List.map_map]
    rfl
  have hbefore : ∑ j ∈ Finset.range k, (if j < k + b ∧ k ≤ j then 1 else 0) * g j = 0 := by
    refine Finset.sum_eq_zero ?_
    intro j hj
    rw [if_neg fun h => absurd (Finset.mem_range.mp hj) (not_lt.mpr h.2), zero_mul]
  rw [hdrop, Finset.sum_range_add, hbefore, zero_add]
  show ∑ i ∈ Finset.range b, g (k + i) = _
  refine Finset.sum_congr rfl ?_
  intro i hi
  have hi : k + i < k + b := Nat.add_lt_add_left (Finset.mem_range.mp hi) k
  rw [if_pos ⟨hi, Nat.le_add_right k i⟩, one_mul]

theorem Priced.totalsArtificial (ht : Priced f ε (start f ε).artificialCost t) :
    t.TotalsArtificial f := by
  refine ⟨(List.range t.nrColumns).map t.point, ht.basic_point, ht.take_point, ?_⟩
  rw [sum_drop_map_range t.point ht.nrColumns_le, ht.objective_eq_sum]
  refine Finset.sum_congr rfl ?_
  intro j _
  rw [getD_artificialCost, ← ht.sameRows.nrColumns, firstArtificial_start]

theorem totalsArtificial_start (hf : f.Proper)
    (hnone : (start f ε).enterable = (start f ε).firstArtificial) :
    (start f ε).TotalsArtificial f := by
  have ht : Restates f ε (start f ε) := restates_start hf
  have hcolumns : (start f ε).nrColumns = f.nrColumns := nrColumns_start.trans hnone
  refine ⟨(List.range (start f ε).nrColumns).map (start f ε).point, ht.basic_point,
    ht.take_point, ?_⟩
  rw [objective_eq, costRow_start, Pi.zero_apply, neg_zero, List.drop_of_length_le, List.sum_nil]
  rw [List.length_map, List.length_range, hcolumns]

/-! ## The second phase -/

/-- The relative costs are what the duals leave of the cost, zero for every basic column, and the
objective is the cost of the basic solution and the worth of the right-hand sides at once. -/
structure PricedByDuals (f : StandardForm ℚ) (t : Tableau ℚ) : Prop where
  length_duals : t.duals.length = f.equations.length
  relativeCost : ∀ j < f.nrColumns, t.relativeCost j = f.reducedCost t.duals j
  basic : ∀ l ∈ t.lines, t.relativeCost l.basic = 0
  value : t.objective = f.value t.basicSolution
  worth : t.objective = Dense.dot t.duals (f.equations.map Equation.value)

theorem Prices.objective_eq_worth (ht : t.Prices fun j => f.cost.getD j 0)
    (hs : SameRows (start f ε) t) (hf : f.Proper) :
    t.objective = Dense.dot t.duals (f.equations.map Equation.value) := by
  have hcombination := ht.cost_sub_costRow hs hf t.nrColumns
  rw [if_neg (lt_irrefl _), zero_sub, ← objective_eq] at hcombination
  rw [hcombination, Dense.dot_eq_sum (length_duals hs).le]
  refine Finset.sum_congr rfl ?_
  intro k hk
  have hk : k < f.equations.length := Finset.mem_range.mp hk
  have hq : f.equations[k]? = some f.equations[k] := List.getElem?_eq_getElem hk
  have hy : t.duals[k]? = some (t.duals.getD k 0) := by
    rw [List.getD_eq_getElem?_getD, List.getElem?_eq_getElem ((length_duals hs).symm ▸ hk)]
    rfl
  have hvalue : (f.equations.map Equation.value).getD k 0 = (f.equations[k]).value := by
    rw [List.getD_eq_getElem?_getD, List.getElem?_map, hq]
    rfl
  rw [getElem?_duals hy, hvalue, row_start hf hq, if_pos hs.nrColumns]

theorem Priced.pricedByDuals (ht : Priced f ε f.cost t) (hf : f.Proper) : t.PricedByDuals f where
  length_duals := Prices.length_duals ht.sameRows
  relativeCost j hj := (ht.prices.reducedCost_duals ht.sameRows hf hj).symm
  basic l hl := by
    obtain ⟨i, hi, rfl⟩ := exists_line hl
    exact ht.reduced i hi
  value := by
    rw [ht.objective_eq_sum, f.value_eq_sum ht.nrColumns_le]
    refine Finset.sum_congr rfl ?_
    intro j _
    rcases lt_or_ge j f.nrColumns with hj | hj
    · rw [ht.basicSolution_eq, ht.firstArtificial_eq, Dense.getD_map_range t.point hj]
    · rw [show f.cost.getD j 0 = 0 from Dense.getD_eq_zero hj, zero_mul, zero_mul]
  worth := ht.prices.objective_eq_worth ht.sameRows hf

end Tableau

/-! ## Along a run -/

/-- The cost that is in effect at a stage of a run; it is written into the first tableau later. -/
def Stage.cost (f : StandardForm ℚ) (ε : ℚ) : Stage → List ℚ
  | .start => []
  | .first => (Tableau.start f ε).artificialCost
  | .removal _ => (Tableau.start f ε).artificialCost
  | .second => f.cost

theorem StandardForm.Visits.priced {f : StandardForm ℚ} (hf : f.Proper)
    {tolerances : Tolerances ℚ} {stage : Stage} {calls : List (Call ℚ)} {t : Tableau ℚ}
    (h : f.Visits tolerances stage calls t) (hentry : ∀ call ∈ calls, call.entry ≠ 0) :
    Tableau.Priced f tolerances.pivot (stage.cost f tolerances.pivot) t := by
  induction h with
  | start => exact Tableau.priced_start hf
  | opens _ _ ih => exact (ih hentry).priced_setArtificialCost
  | moves _ _ hmove ih =>
      obtain ⟨hbefore, hlast⟩ := List.forall_mem_append.mp hentry
      have ht := ih hbefore
      obtain ⟨hc, hn, hr, -⟩ := Tableau.entry_of_move hmove
      exact ht.pivot hr (hlast _ (List.mem_singleton_self _)) hn (hc.trans_le ht.enterable_le)
  | settles _ _ _ _ ih => exact ih hentry
  | keeps _ _ ih => exact ih hentry
  | replaces _ hrow _ hc ih =>
      obtain ⟨hbefore, hlast⟩ := List.forall_mem_append.mp hentry
      have ht := ih hbefore
      obtain ⟨hcF, hn, -⟩ := Tableau.epsilon_lt_of_replacement? hc
      exact ht.pivot hrow (hlast _ (List.mem_singleton_self _)) hn
        (hcF.trans_le ht.firstArtificial_le)
  | closes _ ih => exact (ih hentry).closeArtificial.priced_setCost f.cost
  | skips _ _ ih => exact (ih hentry).closeArtificial.priced_setCost f.cost

namespace Model

/-- At every tableau that a run on a standard form of a model can come to in its second phase, the
relative costs are what the duals leave of the cost, and the objective is the cost of the basic
solution; in the first phase the objective is the sum of the artificial values.  Whatever counts as
zero, all that this needs is that no pivot was on an entry that is zero, and where nothing below
zero is tolerated none is. -/
theorem relativeCosts_priced {m : Model ℚ} {infinity : ℚ} {f : StandardForm ℚ}
    (h : m.standardForm infinity = .ok f) (tolerances : Tolerances ℚ) :
    (∀ stage calls t, f.Visits tolerances stage calls t → (∀ call ∈ calls, call.entry ≠ 0) →
      (stage = .second → t.PricedByDuals f) ∧
        (stage = .first ∨ (∃ rows, stage = .removal rows) → t.TotalsArtificial f) ∧
        (stage = .start → t.enterable = t.firstArtificial → t.TotalsArtificial f)) ∧
      (0 ≤ tolerances.pivot → ∀ stage calls t, f.Visits tolerances stage calls t →
        ∀ call ∈ calls, call.entry ≠ 0) ∧
      ∀ control, f.Covers tolerances control := by
  have hf := proper_of_standardForm h
  refine ⟨?_, ?_, fun control => StandardForm.covers tolerances control f⟩
  · intro stage calls t ht hentry
    have hpriced := ht.priced hf hentry
    refine ⟨?_, ?_, ?_⟩
    · rintro rfl
      exact hpriced.pricedByDuals hf
    · rintro (rfl | ⟨rows, rfl⟩)
      · exact hpriced.totalsArtificial
      · exact hpriced.totalsArtificial
    · rintro rfl hnone
      obtain rfl := ht.eq_start
      exact Tableau.totalsArtificial_start hf hnone
  · intro hε stage calls t ht call hcall
    have hlt := ((ht.booked h hε).legal call hcall).epsilon_lt
    rw [Scalar.abs_eq] at hlt
    exact abs_pos.mp (hε.trans_lt hlt)

/-- The second phase of the run on the model with a redundant row passes two tableaux, the second
one with other duals. -/
theorem relativeCosts_priced_redundant :
    redundant.standardForm 1000 = .ok (redundant.converted 1000) ∧
      ((redundant.converted 1000).secondTrail ⟨0, 0⟩ .never).map Tableau.duals
        = [[0, 0, 0], [-1, 0, 1]] ∧
      (∀ t ∈ (redundant.converted 1000).secondTrail ⟨0, 0⟩ .never,
        t.PricedByDuals (redundant.converted 1000)) ∧
      ∀ t ∈ (redundant.converted 1000).firstTrail ⟨0, 0⟩ .never,
        t.TotalsArtificial (redundant.converted 1000) := by
  have hok : redundant.standardForm 1000 = .ok (redundant.converted 1000) := by decide +kernel
  obtain ⟨hcosts, hentry, hcovers⟩ := relativeCosts_priced hok ⟨0, 0⟩
  have hentry := hentry le_rfl
  refine ⟨hok, by decide +kernel, ?_, ?_⟩
  · intro t ht
    obtain ⟨calls, -, hvisits⟩ := (hcovers .never).second t ht
    exact (hcosts _ calls t hvisits (hentry _ _ _ hvisits)).1 rfl
  · intro t ht
    obtain ⟨calls, -, hvisits⟩ := (hcovers .never).first t ht
    exact (hcosts _ calls t hvisits (hentry _ _ _ hvisits)).2.1 (Or.inl rfl)

end Model
end LinProg
