/-
What an optimal dual value says about other right-hand sides.

The duals of an optimal solution price the limits of the rows.  Against any
other point the cost splits into what the marginal costs make of its
variables and what the prices make of its rows; each marginal cost and each
price points at a limit that the optimal solution is at, so no point gets
below the optimal cost by more than the prices of the limits that were
moved.  Whether the simplex method solves the moved model in the same basis
does not matter.
-/
import LinProg.Proofs.Engine.Accepted
import LinProg.Proofs.Engine.Certificate

namespace LinProg

variable {infinity : ℚ}

/-! ## Moved limits -/

namespace Limits

variable {l : Limits ℚ}

/-- Whether a value keeps to the finite limits when these are moved by an amount. -/
structure RespectsMoved (amount infinity : ℚ) (l : Limits ℚ) (x : ℚ) : Prop where
  lower : ∀ a, l.finiteLower? infinity = some a → a + amount ≤ x
  upper : ∀ b, l.finiteUpper? infinity = some b → x ≤ b + amount

theorem Respects.moved {x : ℚ} (h : l.Respects infinity x) : l.RespectsMoved 0 infinity x where
  lower a ha := by
    obtain ⟨hlower, hfinite⟩ := finiteLower?_eq_some.mp ha
    rw [add_zero]
    exact h.lower a hlower hfinite
  upper b hb := by
    obtain ⟨hupper, hfinite⟩ := finiteUpper?_eq_some.mp hb
    rw [add_zero]
    exact h.upper b hupper hfinite

/-- A price that points at the limit where a value `v` is makes every other value dearer, by what
the limit was moved at least. -/
theorem RespectsMoved.price_mul_le {amount v x price : ℚ} (h : l.RespectsMoved amount infinity x)
    (hpos : 0 < price → l.finiteLower? infinity = some v)
    (hneg : price < 0 → l.finiteUpper? infinity = some v) :
    price * (v + amount) ≤ price * x := by
  rcases lt_trichotomy price 0 with hprice | hprice | hprice
  · exact mul_le_mul_of_nonpos_left (h.upper v (hneg hprice)) hprice.le
  · rw [hprice, zero_mul, zero_mul]
  · exact mul_le_mul_of_nonneg_left (h.lower v (hpos hprice)) hprice.le

end Limits

namespace Row

variable {r : Row ℚ}

/-- A row without a range is limited by its right-hand side only; with another finite right-hand
side its limits are moved by the difference. -/
theorem respectsMoved {amount x : ℚ} (hrange : r.range = none)
    (hfinite : Scalar.Finite infinity (r.rightHandSide + amount))
    (h : Limits.Respects infinity
      { r with rightHandSide := r.rightHandSide + amount }.limits x) :
    r.limits.RespectsMoved amount infinity x := by
  obtain ⟨coefficients, relation, b, range, name⟩ := r
  obtain rfl : range = none := hrange
  constructor
  · intro a ha
    obtain ⟨hlower, -⟩ := Limits.finiteLower?_eq_some.mp ha
    cases relation with
    | less => cases hlower
    | greater =>
        obtain rfl := Option.some.inj hlower
        exact h.lower _ rfl hfinite
    | equal =>
        obtain rfl := Option.some.inj hlower
        exact h.lower _ rfl hfinite
  · intro a ha
    obtain ⟨hupper, -⟩ := Limits.finiteUpper?_eq_some.mp ha
    cases relation with
    | less =>
        obtain rfl := Option.some.inj hupper
        exact h.upper _ rfl hfinite
    | greater => cases hupper
    | equal =>
        obtain rfl := Option.some.inj hupper
        exact h.upper _ rfl hfinite

end Row

/-! ## The worth of a point -/

namespace Model

variable {m : Model ℚ}

theorem within_coefficients (hclosed : m.Closed) (i : ℕ) :
    (m.coefficients i).Within m.nrColumns := by
  rw [coefficients]
  cases hr : m.rows[i]? with
  | none => exact fun _ he => absurd he List.not_mem_nil
  | some r => exact hclosed.rows r (List.mem_of_getElem? hr)

/-- The cost of a point is what the marginal costs make of its variables and the prices of its
rows, whatever the prices are. -/
theorem cost_eq_worth (hclosed : m.Closed) (priced : List (Pending ℚ × ℚ)) (x : List ℚ) :
    m.sense.sign * m.cost.dot x
      = ∑ j ∈ Finset.range m.nrColumns, m.marginalCost priced j * x.getD j 0
        + ∑ i ∈ Finset.range m.nrRows, rowPrice priced i * (m.coefficients i).dot x := by
  have hrow : ∀ i ∈ Finset.range m.nrRows, rowPrice priced i * (m.coefficients i).dot x
      = ∑ j ∈ Finset.range m.nrColumns,
          rowPrice priced i * (m.coefficients i).weight j * x.getD j 0 := by
    intro i _
    rw [Sparse.dot_eq_sum_of_within (within_coefficients hclosed i), Finset.mul_sum]
    exact Finset.sum_congr rfl fun j _ => (mul_assoc _ _ _).symm
  rw [Sparse.dot_eq_sum_of_within hclosed.cost, Finset.sum_congr rfl hrow, Finset.sum_comm,
    Finset.mul_sum, ← Finset.sum_add_distrib]
  refine Finset.sum_congr rfl ?_
  intro j _
  rw [marginalCost, sub_mul, ← Finset.sum_mul]
  ring

/-- Moving the limits of the rows changes the optimal cost by no less than their prices say. -/
theorem optimal_add_prices_le {b : BasicSolution ℚ} (hb : (m.converted infinity).Optimal b)
    (hmeet : ∀ r ∈ m.rows, r.limits.Meetable infinity) (hclosed : m.Closed) {x : List ℚ}
    (amount : ℕ → ℚ)
    (hcolumns : ∀ (j : ℕ) (c : Column ℚ), m.columns[j]? = some c →
      c.limits.Respects infinity (x.getD j 0))
    (hrows : ∀ (i : ℕ) (r : Row ℚ), m.rows[i]? = some r →
      r.limits.RespectsMoved (amount i) infinity (r.coefficients.dot x)) :
    m.sense.sign * m.cost.dot ((m.converted infinity).point b.values)
        + ∑ i ∈ Finset.range m.nrRows,
            rowPrice (Pending.priced (m.pending infinity) b.duals) i * amount i
      ≤ m.sense.sign * m.cost.dot x := by
  set priced := Pending.priced (m.pending infinity) b.duals
  have hvariables : ∀ j ∈ Finset.range m.nrColumns,
      m.marginalCost priced j * ((m.converted infinity).point b.values).getD j 0
        ≤ m.marginalCost priced j * x.getD j 0 := by
    intro j hj
    have hc := List.getElem?_eq_getElem (l := m.columns) (Finset.mem_range.mp hj)
    obtain ⟨hpos, hneg⟩ := bound_of_marginalCost hb hc
    simpa only [add_zero] using (hcolumns j _ hc).moved.price_mul_le hpos hneg
  have hlimits : ∀ i ∈ Finset.range m.nrRows,
      rowPrice priced i
          * ((m.coefficients i).dot ((m.converted infinity).point b.values) + amount i)
        ≤ rowPrice priced i * (m.coefficients i).dot x := by
    intro i hi
    have hr := List.getElem?_eq_getElem (l := m.rows) (Finset.mem_range.mp hi)
    obtain ⟨hpos, hneg⟩ := limit_of_rowPrice hb hmeet hclosed hr
    rw [coefficients, hr]
    exact (hrows i _ hr).price_mul_le hpos hneg
  have hsum := add_le_add (Finset.sum_le_sum hvariables) (Finset.sum_le_sum hlimits)
  simp only [mul_add, Finset.sum_add_distrib] at hsum
  rw [cost_eq_worth hclosed priced ((m.converted infinity).point b.values),
    cost_eq_worth hclosed priced x]
  linarith

def moved (i : ℕ) (b : ℚ) (m : Model ℚ) : Model ℚ :=
  { m with rows := m.rows.modify i fun r => { r with rightHandSide := b } }

/-- A point of the model with a moved right-hand side keeps to the limits of the other rows, and to
the moved limits of that row. -/
theorem Respects.of_moved {i : ℕ} {r : Row ℚ} {δ : ℚ} {x : List ℚ} (hr : m.rows[i]? = some r)
    (hrange : r.range = none) (hfinite : Scalar.Finite infinity (r.rightHandSide + δ))
    (hx : (m.moved i (r.rightHandSide + δ)).Respects infinity x) (k : ℕ) (q : Row ℚ)
    (hq : m.rows[k]? = some q) :
    q.limits.RespectsMoved (if k = i then δ else 0) infinity (q.coefficients.dot x) := by
  by_cases hki : k = i
  · subst hki
    obtain rfl := Option.some.inj (hr.symm.trans hq)
    rw [if_pos rfl]
    refine Row.respectsMoved hrange hfinite (hx.rows _ (List.mem_of_getElem? (i := k) ?_))
    rw [moved, List.getElem?_modify_eq, hr]
    rfl
  · rw [if_neg hki]
    refine Limits.Respects.moved (hx.rows q (List.mem_of_getElem? (i := k) ?_))
    exact (List.getElem?_modify_ne _ _ (Ne.symm hki)).trans hq

/-- Moving one right-hand side changes the optimal cost by no less than the price of its row
says. -/
theorem optimal_add_price_le {b : BasicSolution ℚ} (hb : (m.converted infinity).Optimal b)
    (hmeet : ∀ r ∈ m.rows, r.limits.Meetable infinity) (hclosed : m.Closed) {i : ℕ} {r : Row ℚ}
    (hr : m.rows[i]? = some r) (hrange : r.range = none) {δ : ℚ}
    (hfinite : Scalar.Finite infinity (r.rightHandSide + δ)) {x : List ℚ}
    (hx : (m.moved i (r.rightHandSide + δ)).Respects infinity x) :
    m.sense.sign * m.cost.dot ((m.converted infinity).point b.values)
        + rowPrice (Pending.priced (m.pending infinity) b.duals) i * δ
      ≤ m.sense.sign * m.cost.dot x := by
  have hi : i < m.nrRows := (List.getElem?_eq_some_iff.mp hr).1
  have hprices : ∑ k ∈ Finset.range m.nrRows,
      rowPrice (Pending.priced (m.pending infinity) b.duals) k * (if k = i then δ else 0)
        = rowPrice (Pending.priced (m.pending infinity) b.duals) i * δ := by
    simp only [mul_ite, mul_zero]
    rw [Finset.sum_ite_eq', if_pos (Finset.mem_range.mpr hi)]
  rw [← hprices]
  exact optimal_add_prices_le hb hmeet hclosed (fun k => if k = i then δ else 0) hx.columns
    (hx.of_moved hr hrange hfinite)

end Model

/-! ## Two solves -/

namespace Engine

variable {e : Engine ℚ}

theorem Exact.congr {e' : Engine ℚ} (he : e.Exact) (hconfig : e'.config = e.config)
    (hcolumns : e'.model.columns = e.model.columns) : e'.Exact where
  epsilon := hconfig ▸ he.epsilon
  feasibilityTolerance := hconfig ▸ he.feasibilityTolerance
  infinity_pos := hconfig ▸ he.infinity_pos
  columns c hc := hconfig ▸ he.columns c (hcolumns ▸ hc)

theorem of_setRightHandSide? {d e' : Engine ℚ} {row : ℕ} {r : Row ℚ} {b : ℚ}
    (hmodel : d.model = e.model) (hrow : e.row? row = some r)
    (h : d.setRightHandSide? row b = some e') :
    ∃ i, row = i + 1 ∧ e.model.rows[i]? = some r ∧ e'.config = d.config ∧
      e'.model = e.model.moved i b := by
  obtain ⟨i, rfl, -, rfl⟩ := of_editRow? h
  obtain ⟨k, hk, hr⟩ := Option.bind_eq_some_iff.mp hrow
  obtain ⟨hsucc, -⟩ := rowIndex?_eq_some.mp hk
  obtain rfl : i = k := Nat.succ.inj hsucc
  exact ⟨i, rfl, hr, rfl, congrArg (Model.moved i b) hmodel⟩

theorem objective?_eq_some {m : Model ℚ} {f : StandardForm ℚ} {b : BasicSolution ℚ}
    (h : e.solution = some (Solution.ofBasic m f b)) :
    e.objective? = some (m.cost.dot (f.point b.values)) := by
  rw [objective?, h]
  rfl

theorem Exact.exists_respects_of_solve (he : e.Exact) {clock : Clock}
    (hopt : (e.solve clock).status = .optimal) :
    ∃ x, e.model.Respects e.config.infinity x ∧
      (e.solve clock).objective? = some (e.model.cost.dot x) := by
  obtain ⟨b, hok, hb, hsolution⟩ := exists_optimum_of_solve he hopt
  exact ⟨_, (he.feasible_point hok hb.solves).toRespects, objective?_eq_some hsolution⟩

/-- The dual value of a row without a range bounds what another finite right-hand side of the row
does to the optimal objective, in either direction and by any amount.  The right-hand side may be
written before or after the first solve. -/
theorem dual_bounds_objective (he : e.Exact) {row : ℕ} {r : Row ℚ} (hrow : e.row? row = some r)
    (hrange : r.range = none) {δ : ℚ}
    (hfinite : Scalar.Finite e.config.infinity (r.rightHandSide + δ)) {clock clock' : Clock}
    {d e' : Engine ℚ} (hd : d = e ∨ d = e.solve clock)
    (hedit : d.setRightHandSide? row (r.rightHandSide + δ) = some e')
    (hopt : (e.solve clock).status = .optimal) (hopt' : (e'.solve clock').status = .optimal) :
    ∃ s y z z', (e.solve clock).solution = some s ∧ s.duals[row - 1]? = some y ∧
      (e.solve clock).objective? = some z ∧ (e'.solve clock').objective? = some z' ∧
      (e.model.sense = .minimize → z + y * δ ≤ z') ∧
      (e.model.sense = .maximize → z' ≤ z + y * δ) := by
  obtain ⟨hsame, hconfig⟩ : d.model = e.model ∧ d.config = e.config := by
    rcases hd with rfl | rfl
    · exact ⟨rfl, rfl⟩
    · exact ⟨model_solve clock e, config_solve clock e⟩
  obtain ⟨i, rfl, hr, hconfig', hmodel'⟩ := of_setRightHandSide? hsame hrow hedit
  have hi : i < e.model.nrRows := (List.getElem?_eq_some_iff.mp hr).1
  have he' : e'.Exact := by
    refine he.congr (hconfig'.trans hconfig) ?_
    rw [hmodel']
    rfl
  obtain ⟨b, hok, hb, hsolution⟩ := exists_optimum_of_solve he hopt
  obtain ⟨x, hx, hobjective'⟩ := he'.exists_respects_of_solve hopt'
  rw [hmodel', hconfig', hconfig] at hx
  rw [hmodel'] at hobjective'
  have hworth := Model.optimal_add_price_le hb (Model.meetable_of_standardForm he.infinity_pos hok)
    (Model.standardForm_eq_ok hok).1 hr hrange hfinite hx
  rw [← Solution.sign_mul_getD_prices hi] at hworth
  have hlt : i < (Solution.prices e.model (e.model.converted e.config.infinity) b.duals).length :=
    hi.trans_eq (Solution.length_prices _ _ _).symm
  rw [List.getD_eq_getElem _ _ hlt] at hworth
  refine ⟨_, _, _, _, hsolution, List.getElem?_eq_getElem hlt, objective?_eq_some hsolution,
    hobjective', ?_, ?_⟩
  · intro hsense
    rw [hsense, Sense.sign, one_mul, one_mul, one_mul] at hworth
    exact hworth
  · intro hsense
    rw [hsense, Sense.sign] at hworth
    show e.model.cost.dot x ≤ _
    linarith

/-- In the small model the equation has the dual value one.  With three more on its right-hand side
the objective rises by one only: another row stops it. -/
theorem dual_bounds_objective_mixed :
    mixed.Exact ∧ mixed.row? 2 = some (Row.plain [(1, 1), (2, -1)] .equal 1) ∧
      mixed.setRightHandSide? 2 (1 + 3) = some (mixed.withModel (Model.mixed.moved 1 (1 + 3))) ∧
      (mixed.solve fun _ => 0).status = .optimal ∧
      ((mixed.withModel (Model.mixed.moved 1 (1 + 3))).solve fun _ => 0).status = .optimal ∧
      ∃ s y z z', (mixed.solve fun _ => 0).solution = some s ∧ s.duals[1]? = some y ∧
        (mixed.solve fun _ => 0).objective? = some z ∧
        ((mixed.withModel (Model.mixed.moved 1 (1 + 3))).solve fun _ => 0).objective? = some z' ∧
        z' ≤ z + y * 3 := by
  have hrow : mixed.row? 2 = some (Row.plain [(1, 1), (2, -1)] .equal 1) := by decide
  have hedit : mixed.setRightHandSide? 2 (1 + 3)
      = some (mixed.withModel (Model.mixed.moved 1 (1 + 3))) := rfl
  have hopt : (mixed.solve fun _ => 0).status = .optimal := by decide +kernel
  have hopt' : ((mixed.withModel (Model.mixed.moved 1 (1 + 3))).solve fun _ => 0).status
      = .optimal := by decide +kernel
  obtain ⟨s, y, z, z', hs, hy, hz, hz', -, hmax⟩ :=
    dual_bounds_objective exact_mixed hrow rfl (δ := 3) (by decide +kernel) (Or.inl rfl) hedit hopt
      hopt'
  exact ⟨exact_mixed, hrow, hedit, hopt, hopt', s, y, z, z', hs, hy, hz, hz', hmax rfl⟩

end Engine
end LinProg
