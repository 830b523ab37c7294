/-
What it means to solve a linear program in standard form, and what the
simplex method is promised about one.
-/
import LinProg.Proofs.Dense
import LinProg.Simplex

namespace LinProg

def Equation.Holds {α : Type} [Scalar α] (q : Equation α) (y : List α) : Prop :=
  Dense.dot q.coefficients y = q.value

namespace StandardForm

def value {α : Type} [Scalar α] (f : StandardForm α) (y : List α) : α := Dense.dot f.cost y

/-- Nonnegative values of all columns that satisfy the equations. -/
structure Solves (f : StandardForm ℚ) (y : List ℚ) : Prop where
  length : y.length = f.nrColumns
  nonneg : ∀ j, 0 ≤ y.getD j 0
  holds : ∀ q ∈ f.equations, q.Holds y

/-- Nonnegative values of all columns that satisfy the equations up to a tolerance. -/
structure SolvesWithin (tolerance : ℚ) (f : StandardForm ℚ) (y : List ℚ) : Prop where
  length : y.length = f.nrColumns
  nonneg : ∀ j, 0 ≤ y.getD j 0
  close : ∀ q ∈ f.equations, |q.value - Dense.dot q.coefficients y| ≤ tolerance

theorem Solves.within {f : StandardForm ℚ} {y : List ℚ} (h : f.Solves y) : f.SolvesWithin 0 y where
  length := h.length
  nonneg := h.nonneg
  close q hq := by
    have hholds : Dense.dot q.coefficients y = q.value := h.holds q hq
    rw [hholds, sub_self, abs_zero]

/-- A standard form that is laid out as the simplex method needs it: the right-hand sides are
nonnegative, and the column that an equation offers for the first basis is a unit vector on it and
costs nothing. -/
structure Proper (f : StandardForm ℚ) : Prop where
  width : ∀ q ∈ f.equations, q.coefficients.length = f.nrColumns
  nonneg : ∀ q ∈ f.equations, 0 ≤ q.value
  basic_lt : ∀ q ∈ f.equations, ∀ j, q.basic = some j → j < f.nrColumns
  cost_basic : ∀ q ∈ f.equations, ∀ j, q.basic = some j → f.cost.getD j 0 = 0
  unit : ∀ (i k : ℕ) (q q' : Equation ℚ), f.equations[i]? = some q → f.equations[k]? = some q' →
    ∀ j, q.basic = some j → q'.coefficients.getD j 0 = if k = i then 1 else 0

theorem value_eq_sum (f : StandardForm ℚ) {n : ℕ} (hn : f.nrColumns ≤ n) (y : List ℚ) :
    f.value y = ∑ j ∈ Finset.range n, f.cost.getD j 0 * y.getD j 0 := Dense.dot_eq_sum hn

/-- What the cost of a column exceeds the worth of its coefficients by. -/
def reducedCost (f : StandardForm ℚ) (duals : List ℚ) (j : ℕ) : ℚ :=
  f.cost.getD j 0 - ((f.equations.zip duals).map fun (q, y) => y * q.coefficients.getD j 0).sum

theorem reducedCost_eq_sum {f : StandardForm ℚ} {duals : List ℚ} {j : ℕ}
    (hlen : f.equations.length = duals.length) {s : ℕ → ℚ}
    (h : ∀ k q y, f.equations[k]? = some q → duals[k]? = some y →
      y * q.coefficients.getD j 0 = s k) :
    f.reducedCost duals j
      = f.cost.getD j 0 - ∑ k ∈ Finset.range f.equations.length, s k := by
  rw [reducedCost, Dense.sum_zip_eq hlen h]

/-- A solution of least cost with duals that show it to be one. -/
structure Optimal (f : StandardForm ℚ) (s : BasicSolution ℚ) : Prop where
  solves : f.Solves s.values
  least : ∀ y, f.Solves y → f.value s.values ≤ f.value y
  length_duals : s.duals.length = f.equations.length
  reducedCost_nonneg : ∀ j < f.nrColumns, 0 ≤ f.reducedCost s.duals j
  complementary : ∀ j < f.nrColumns, f.reducedCost s.duals j * s.values.getD j 0 = 0

/-- What a verdict says. -/
def Sound (f : StandardForm ℚ) : Verdict ℚ → Prop
  | .infeasible => ∀ y, ¬ f.Solves y
  | .optimum s => f.Optimal s
  | .unbounded => ∀ K, ∃ y, f.Solves y ∧ f.value y < K
  | .interrupted _ none => True
  | .interrupted _ (some s) => f.Solves s.values
  | .numericFailure => False
  | .cycled => False

end StandardForm

end LinProg
