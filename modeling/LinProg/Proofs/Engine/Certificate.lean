/-
The duals and reduced costs that an engine reports.

The dual of a row is its price and the reduced cost of a column its
marginal cost, both in the sense of the model.  So their signs tell at
which limit a row or column of an optimal solution is: together they are a
certificate of the optimum that can be checked without solving anything.
-/
import LinProg.Proofs.Engine.Translation
import LinProg.Proofs.StandardForm.Certificate

namespace LinProg

theorem Model.element?_succ {m : Model ℚ} (hm : m.Sorted) (i j : ℕ) :
    (m.element? (i + 1) j).getD 0 = (m.coefficients i).weight j := by
  rw [element?, coefficients]
  cases hr : m.rows[i]? with
  | none => rfl
  | some r => exact Sparse.get_eq_weight (hm.rows r (List.mem_of_getElem? hr)) j

namespace Solution

variable {infinity : ℚ} {m : Model ℚ} {duals : List ℚ} {i j : ℕ}

/-! ## Prices -/

/-- Add what an equation with a dual says about the price of its row. -/
def addPrice (sense : ℚ) (prices : List ℚ) (e : Equation ℚ × ℚ) : List ℚ :=
  match e.1.origin with
  | .bound => prices
  | .constraint row sign => prices.modify row (· + sense * sign * e.2)

/-- What an equation with a dual says about the price of a row. -/
def contribution (sense : ℚ) (i : ℕ) (e : Equation ℚ × ℚ) : ℚ :=
  match e.1.origin with
  | .bound => 0
  | .constraint row sign => if row = i then sense * sign * e.2 else 0

theorem prices_eq (m : Model ℚ) (f : StandardForm ℚ) (duals : List ℚ) :
    prices m f duals
      = (f.equations.zip duals).foldl (addPrice m.sense.sign) (List.replicate m.nrRows 0) := by
  rw [prices]
  congr
  funext d e
  obtain ⟨q, y⟩ := e
  rw [addPrice]
  simp only
  cases q.origin with
  | bound => rfl
  | constraint row sign => rfl

theorem length_addPrice (sense : ℚ) (d : List ℚ) (e : Equation ℚ × ℚ) :
    (addPrice sense d e).length = d.length := by
  rw [addPrice]
  cases e.1.origin with
  | bound => rfl
  | constraint row sign => exact List.length_modify _ _ _

theorem getD_addPrice (sense : ℚ) {d : List ℚ} (hi : i < d.length) (e : Equation ℚ × ℚ) :
    (addPrice sense d e).getD i 0 = d.getD i 0 + contribution sense i e := by
  rw [addPrice, contribution]
  cases e.1.origin with
  | bound => exact (add_zero _).symm
  | constraint row sign => exact Dense.getD_modify_add hi row _

theorem getD_foldl_addPrice (sense : ℚ) (es : List (Equation ℚ × ℚ)) {d : List ℚ}
    (hi : i < d.length) :
    (es.foldl (addPrice sense) d).getD i 0
      = d.getD i 0 + (es.map (contribution sense i)).sum := by
  induction es generalizing d with
  | nil => simp
  | cons e es ih =>
      rw [List.foldl_cons, ih ((length_addPrice sense d e).symm ▸ hi), getD_addPrice sense hi,
        List.map_cons, List.sum_cons, add_assoc]

/-- The dual of a row is its price, in the sense of the model. -/
theorem getD_prices (hi : i < m.nrRows) :
    (prices m (m.converted infinity) duals).getD i 0
      = m.sense.sign * Model.rowPrice (Pending.priced (m.pending infinity) duals) i := by
  have hzip : (((m.converted infinity).equations.zip duals).map
        (contribution m.sense.sign i)).sum
      = ((Pending.priced (m.pending infinity) duals).map fun e =>
        m.sense.sign * if e.1.row = some i then e.2 else 0).sum := by
    refine congrArg List.sum (Pending.map_zip_equations fun k p y _ => ?_)
    simp only [contribution, Pending.equation]
    cases p.row with
    | none => simp
    | some row =>
        by_cases hrow : row = i
        · subst hrow
          simp only [if_true, mul_assoc]
          rfl
        · simp [hrow]
  rw [prices_eq, getD_foldl_addPrice _ _ (by rwa [List.length_replicate]),
    List.getD_replicate 0 hi, zero_add, hzip, List.sum_map_mul_left]
  rfl

theorem sign_mul_getD_prices (hi : i < m.nrRows) :
    m.sense.sign * (prices m (m.converted infinity) duals).getD i 0
      = Model.rowPrice (Pending.priced (m.pending infinity) duals) i := by
  rw [getD_prices hi, ← mul_assoc, Sense.sign_mul_sign, one_mul]

/-! ## Reduced costs -/

theorem reduced_eq (m : Model ℚ) (prices : List ℚ) :
    reduced m prices
      = ((m.rows.zip prices).flatMap fun (r, y) => r.coefficients.map fun e => (e.1, y * e.2)).foldl
          (fun d e => d.modify e.1 (· + -1 * e.2)) (m.cost.toDense m.nrColumns) := by
  rw [List.foldl_flatMap, reduced]
  simp only [List.foldl_map, sub_eq_add_neg, neg_one_mul]

theorem getD_reduced (hm : m.Sorted) {prices : List ℚ} (hlen : prices.length = m.nrRows)
    (hj : j < m.nrColumns) :
    (reduced m prices).getD j 0
      = m.cost.weight j
        - ∑ i ∈ Finset.range m.nrRows, prices.getD i 0 * (m.coefficients i).weight j := by
  have hdense : (m.cost.toDense m.nrColumns).getD j 0 = m.cost.weight j := by
    rw [Sparse.toDense, ← Sparse.get_eq_weight hm.cost]
    exact Dense.getD_map_range (fun j => m.cost.get j) hj
  have hsum : ((m.rows.zip prices).map fun (r, y) => y * r.coefficients.weight j).sum
      = ∑ i ∈ Finset.range m.nrRows, prices.getD i 0 * (m.coefficients i).weight j := by
    refine Dense.sum_zip_eq hlen.symm ?_
    intro i r y hr hy
    rw [Model.coefficients, hr, List.getD_eq_getElem?_getD, hy]
    rfl
  have hlenDense : (m.cost.toDense m.nrColumns).length = m.nrColumns := by
    rw [Sparse.toDense, List.length_map, List.length_range]
  rw [reduced_eq, Sparse.getD_accumulate _ _ _ (hj.trans_eq hlenDense.symm), hdense, Sparse.weight_scale,
    Sparse.weight_flatMap]
  simp only [Sparse.weight_scale]
  rw [hsum, neg_one_mul, sub_eq_add_neg]

/-- In the sense of minimisation the reduced cost of a column is its marginal cost. -/
theorem sign_mul_getD_reduced (hm : m.Sorted) (hj : j < m.nrColumns) :
    m.sense.sign * (reduced m (prices m (m.converted infinity) duals)).getD j 0
      = m.marginalCost (Pending.priced (m.pending infinity) duals) j := by
  rw [getD_reduced hm (length_prices _ _ _) hj, Model.marginalCost, mul_sub, Finset.mul_sum]
  congr 1
  refine Finset.sum_congr rfl ?_
  intro i hi
  rw [← mul_assoc, sign_mul_getD_prices (Finset.mem_range.mp hi)]

/-! ## Primal values -/

theorem getD_primal_row {r : Row ℚ} (hr : m.rows[i]? = some r) (f : StandardForm ℚ)
    (b : BasicSolution ℚ) :
    (ofBasic m f b).primal.getD (1 + i) 0 = r.coefficients.dot (f.point b.values) := by
  have hi : i < (m.rows.map fun r => r.coefficients.dot (f.point b.values)).length := by
    rw [List.length_map]
    exact (List.getElem?_eq_some_iff.mp hr).1
  rw [ofBasic, Nat.add_comm, List.getD_cons_succ]
  rw [← StandardForm.point, List.getD_append _ _ _ _ hi, List.getD_eq_getElem?_getD,
    List.getElem?_map, hr]
  rfl

theorem getD_primal_column (m : Model ℚ) (f : StandardForm ℚ) (b : BasicSolution ℚ) (j : ℕ) :
    (ofBasic m f b).primal.getD (1 + m.nrRows + j) 0 = (f.point b.values).getD j 0 := by
  rw [← Engine.columns_ofBasic m f b, columns, List.getD_eq_getElem?_getD,
    List.getD_eq_getElem?_getD, List.getElem?_drop]

end Solution

namespace Engine

variable {e : Engine ℚ}

theorem exists_optimum_of_solve (he : e.Exact) {clock : Clock}
    (hopt : (e.solve clock).status = .optimal) :
    ∃ b, e.model.standardForm e.config.infinity = .ok (e.model.converted e.config.infinity) ∧
      (e.model.converted e.config.infinity).Optimal b ∧
      (e.solve clock).solution = some
        (Solution.ofBasic e.model (e.model.converted e.config.infinity) b) := by
  cases hresult : e.model.standardForm e.config.infinity with
  | error o =>
      rw [solve, hresult] at hopt
      cases hopt
  | ok f =>
      obtain ⟨-, -, rfl⟩ := Model.standardForm_eq_ok hresult
      have hsound := he.sound hresult clock
      obtain ⟨hstatus, hsolution⟩ := solve_of_ok clock hresult
      rw [hopt] at hstatus
      generalize ((e.model.converted e.config.infinity).minimize e.tolerances
        (e.control clock)).verdict = v at hsound hstatus hsolution
      cases v with
      | optimum b => exact ⟨b, rfl, hsound, hsolution⟩
      | infeasible => cases hstatus
      | unbounded => cases hstatus
      | interrupted why s => cases why <;> cases s <;> cases hstatus
      | numericFailure => cases hstatus
      | cycled => cases hstatus

/-- The duals and reduced costs of an optimal solution certify it: a row or column is at the
finite limit to which the sign of its dual or reduced cost points, and the reduced costs are what
the costs exceed the worth of the coefficients by. -/
theorem solve_certificate (he : e.Exact) (hsorted : e.model.Sorted) (clock : Clock)
    (hopt : (e.solve clock).status = .optimal) :
    ∃ s, (e.solve clock).solution = some s ∧
      s.duals.length = e.nrRows ∧ s.reducedCosts.length = e.nrColumns ∧
      (∀ (i : ℕ) (r : Row ℚ), e.model.rows[i]? = some r →
        (0 < e.model.sense.sign * s.duals.getD i 0 →
          r.limits.finiteLower? e.config.infinity = some (s.primal.getD (1 + i) 0)) ∧
        (e.model.sense.sign * s.duals.getD i 0 < 0 →
          r.limits.finiteUpper? e.config.infinity = some (s.primal.getD (1 + i) 0))) ∧
      (∀ (j : ℕ) (c : Column ℚ), e.model.columns[j]? = some c →
        (0 < e.model.sense.sign * s.reducedCosts.getD j 0 →
          c.limits.finiteLower? e.config.infinity
            = some (s.primal.getD (1 + e.nrRows + j) 0)) ∧
        (e.model.sense.sign * s.reducedCosts.getD j 0 < 0 →
          c.limits.finiteUpper? e.config.infinity
            = some (s.primal.getD (1 + e.nrRows + j) 0))) ∧
      ∀ j < e.nrColumns, s.reducedCosts.getD j 0
        = e.model.cost.get j - ∑ i ∈ Finset.range e.nrRows,
            s.duals.getD i 0 * (e.model.element? (i + 1) j).getD 0 := by
  obtain ⟨b, hok, hb, hsolution⟩ := exists_optimum_of_solve he hopt
  have hmeet := Model.meetable_of_standardForm he.infinity_pos hok
  have hclosed := (Model.standardForm_eq_ok hok).1
  refine ⟨_, hsolution, Solution.length_prices _ _ _, Solution.length_reduced _ _,
    ?_, ?_, ?_⟩
  · intro i r hr
    have hi : i < e.model.nrRows := (List.getElem?_eq_some_iff.mp hr).1
    rw [Solution.getD_primal_row hr]
    simp only [Solution.ofBasic]
    rw [Solution.sign_mul_getD_prices hi]
    exact Model.limit_of_rowPrice hb hmeet hclosed hr
  · intro j c hc
    have hj : j < e.model.nrColumns := (List.getElem?_eq_some_iff.mp hc).1
    rw [nrRows, Solution.getD_primal_column]
    simp only [Solution.ofBasic]
    rw [Solution.sign_mul_getD_reduced hsorted hj]
    exact Model.bound_of_marginalCost hb hc
  · intro j hj
    simp only [Solution.ofBasic]
    rw [Solution.getD_reduced hsorted (Solution.length_prices _ _ _) hj,
      Sparse.get_eq_weight hsorted.cost, nrRows]
    congr 1
    exact Finset.sum_congr rfl fun i _ => by rw [Model.element?_succ hsorted]

theorem solve_certificate_mixed :
    mixed.Exact ∧ mixed.model.Sorted ∧ (mixed.solve fun _ => 0).status = .optimal ∧
      ∃ s, (mixed.solve fun _ => 0).solution = some s ∧ s.duals.length = mixed.nrRows := by
  have hsorted : mixed.model.Sorted := ⟨by simp [Sparse.Sorted, mixed, Model.mixed, withModel],
    by simp [Sparse.Sorted, mixed, Model.mixed, withModel, Row.plain]⟩
  have hopt : (mixed.solve fun _ => 0).status = .optimal := by decide +kernel
  obtain ⟨s, hs, hlen, -⟩ := solve_certificate exact_mixed hsorted (fun _ => 0) hopt
  exact ⟨exact_mixed, hsorted, hopt, s, hs, hlen⟩

end Engine
end LinProg
