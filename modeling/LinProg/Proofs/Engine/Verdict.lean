/-
What the status of a solved model says about it.

The verdict of the simplex method is about the standard form; the points of
the model and the solutions of the standard form are in correspondence, at
costs that differ by a constant in the sense of the model, and so the
verdict holds of the model.
-/
import LinProg.Proofs.Simplex.SecondPhase
import LinProg.Proofs.StandardForm.Conversion
import LinProg.Engine.Solve

namespace LinProg

/-- Whether a first cost is strictly better than a second one. -/
def Sense.Better : Sense → ℚ → ℚ → Prop
  | .maximize, a, b => b < a
  | .minimize, a, b => a < b

theorem Sense.better_iff (sense : Sense) (a b : ℚ) :
    sense.Better a b ↔ sense.sign * a < sense.sign * b := by
  cases sense with
  | maximize =>
      rw [Better, sign, neg_one_mul, neg_one_mul, neg_lt_neg_iff]
  | minimize =>
      rw [Better, sign, one_mul, one_mul]

theorem Sense.sign_mul_sign (sense : Sense) : (sense.sign : ℚ) * sense.sign = 1 := by
  cases sense with
  | maximize => rw [sign, neg_mul_neg, one_mul]
  | minimize => rw [sign, one_mul]

/-- The values of the columns in a solution of a model with so many rows. -/
def Solution.columns {α : Type} (nrRows : ℕ) (s : Solution α) : List α :=
  s.primal.drop (1 + nrRows)

namespace Engine

variable {e : Engine ℚ} {clock : Clock}

/-- What the status of an engine says about its model, with the solution that it has stored. -/
def StatusHolds (e : Engine ℚ) : Prop :=
  match e.status with
  | .optimal => ∃ s, e.solution = some s ∧
      e.model.Feasible e.config.infinity (s.columns e.nrRows) ∧
      e.objective? = some (e.model.cost.dot (s.columns e.nrRows)) ∧
      ∀ x, e.model.Feasible e.config.infinity x →
        ¬ e.model.sense.Better (e.model.cost.dot x) (e.model.cost.dot (s.columns e.nrRows))
  | .subOptimal => ∃ s, e.solution = some s ∧
      e.model.Feasible e.config.infinity (s.columns e.nrRows)
  | .userAbort => ∀ s, e.solution = some s →
      e.model.Feasible e.config.infinity (s.columns e.nrRows)
  | .infeasible => ∀ x, ¬ e.model.Feasible e.config.infinity x
  | .unbounded => ∀ K, ∃ x, e.model.Feasible e.config.infinity x ∧
      e.model.sense.Better (e.model.cost.dot x) K
  | _ => True

/-- An engine that computes without tolerances, for a model whose bounds are not infinite
inward. -/
structure Exact (e : Engine ℚ) : Prop where
  epsilon : e.config.epsilon = 0
  feasibilityTolerance : e.config.feasibilityTolerance = 0
  infinity_pos : 0 < e.config.infinity
  columns : ∀ c ∈ e.model.columns, c.lower < e.config.infinity ∧ -e.config.infinity < c.upper

theorem Exact.meetable (he : e.Exact) :
    ∀ c ∈ e.model.columns, c.limits.Meetable e.config.infinity := fun c hc =>
  Column.meetable_limits (he.columns c hc).1 (he.columns c hc).2

theorem columns_ofBasic {α : Type} [Scalar α] (m : Model α) (f : StandardForm α)
    (b : BasicSolution α) :
    (Solution.ofBasic m f b).columns m.nrRows = f.point b.values := by
  rw [Solution.columns, Solution.ofBasic, Nat.add_comm, List.drop_succ_cons]
  exact List.drop_left' (by simp [Model.nrRows])

/-- Solutions of the standard form and points of the model correspond. -/
theorem Exact.feasible_point (he : e.Exact) {f : StandardForm ℚ}
    (hok : e.model.standardForm e.config.infinity = .ok f) {y : List ℚ} (hy : f.Solves y) :
    e.model.Feasible e.config.infinity (f.point y) where
  toRespects := Model.respects_point he.infinity_pos hok hy
  meetable_columns := he.meetable
  meetable_rows := Model.meetable_of_standardForm he.infinity_pos hok

section StandardForm

variable (he : e.Exact) {f : StandardForm ℚ}
  (hok : e.model.standardForm e.config.infinity = .ok f)
include he hok

theorem Exact.feasible_columns {b : BasicSolution ℚ} (hb : f.Solves b.values) :
    e.model.Feasible e.config.infinity
      ((Solution.ofBasic e.model f b).columns e.model.nrRows) := by
  rw [columns_ofBasic]
  exact he.feasible_point hok hb

theorem Exact.exists_solves {x : List ℚ} (hx : e.model.Feasible e.config.infinity x) :
    ∃ y, f.Solves y ∧ f.point y = x :=
  Model.exists_solves_of_respects he.infinity_pos hok hx.toRespects

theorem Exact.not_better {b : BasicSolution ℚ} (hb : f.Optimal b) {x : List ℚ}
    (hx : e.model.Feasible e.config.infinity x) :
    ¬ e.model.sense.Better (e.model.cost.dot x)
      (e.model.cost.dot ((Solution.ofBasic e.model f b).columns e.model.nrRows)) := by
  intro hbetter
  obtain ⟨y, hy, rfl⟩ := he.exists_solves hok hx
  rw [columns_ofBasic, Sense.better_iff, Model.cost_point hok, Model.cost_point hok] at hbetter
  linarith [hb.least y hy]

/-- Where the cost of the standard form falls without limit, some point is better than any
number. -/
theorem Exact.exists_better (h : ∀ K, ∃ y, f.Solves y ∧ f.value y < K) (K : ℚ) :
    ∃ x, e.model.Feasible e.config.infinity x ∧
      e.model.sense.Better (e.model.cost.dot x) K := by
  obtain ⟨y, hy, hlt⟩ := h (e.model.sense.sign * K
    - e.model.sense.sign * e.model.cost.shift f.substitutions)
  refine ⟨f.point y, he.feasible_point hok hy, ?_⟩
  rw [Sense.better_iff, Model.cost_point hok]
  linarith

/-- When the verdict on the standard form is right, so is the status of the model. -/
theorem statusHolds_of_sound {v : Verdict ℚ} (hv : f.Sound v)
    {e' : Engine ℚ} (hmodel : e'.model = e.model) (hconfig : e'.config = e.config)
    (hstatus : e'.status = v.status)
    (hsolution : e'.solution = v.solution?.map (Solution.ofBasic e.model f)) :
    e'.StatusHolds := by
  rw [StatusHolds, hstatus, hmodel, hconfig, nrRows, hmodel]
  cases v with
  | optimum b =>
      refine ⟨Solution.ofBasic e.model f b, hsolution, he.feasible_columns hok hv.solves, ?_, ?_⟩
      · rw [columns_ofBasic, objective?, hsolution]
        rfl
      · intro x hx
        exact he.not_better hok hv hx
  | infeasible =>
      intro x hx
      obtain ⟨y, hy, -⟩ := he.exists_solves hok hx
      exact hv y hy
  | unbounded =>
      intro K
      exact he.exists_better hok hv K
  | interrupted why b =>
      cases b with
      | none =>
          cases why with
          | aborted =>
              intro s hs
              rw [hsolution] at hs
              cases hs
          | timeLimit => trivial
      | some b =>
          have hfeasible := he.feasible_columns hok hv
          cases why with
          | aborted =>
              intro s hs
              obtain rfl : Solution.ofBasic e.model f b = s :=
                Option.some.inj (hsolution.symm.trans hs)
              exact hfeasible
          | timeLimit => exact ⟨_, hsolution, hfeasible⟩
  | numericFailure => exact hv.elim
  | cycled => exact hv.elim

end StandardForm

theorem solve_of_ok {α : Type} [Scalar α] {e : Engine α} {f : StandardForm α} (clock : Clock)
    (hok : e.model.standardForm e.config.infinity = .ok f) :
    (e.solve clock).status = (f.minimize e.tolerances (e.control clock)).verdict.status ∧
      (e.solve clock).solution
        = (f.minimize e.tolerances (e.control clock)).verdict.solution?.map
          (Solution.ofBasic e.model f) := by
  rw [solve, hok]
  exact ⟨rfl, rfl⟩

theorem model_solve {α : Type} [Scalar α] (clock : Clock) (e : Engine α) :
    (e.solve clock).model = e.model := by
  rw [solve]
  split
  · rfl
  · rfl

theorem config_solve {α : Type} [Scalar α] (clock : Clock) (e : Engine α) :
    (e.solve clock).config = e.config := by
  rw [solve]
  split
  · rfl
  · rfl

theorem Exact.tolerances_eq (he : e.Exact) : e.tolerances = ⟨0, 0⟩ := by
  rw [tolerances, he.epsilon, he.feasibilityTolerance]

theorem Exact.sound (he : e.Exact) {f : StandardForm ℚ}
    (hok : e.model.standardForm e.config.infinity = .ok f) (clock : Clock) :
    f.Sound (f.minimize e.tolerances (e.control clock)).verdict := by
  rw [he.tolerances_eq]
  exact StandardForm.minimize_sound (Model.proper_of_standardForm hok) (e.control clock)

/-- Whatever an exact engine answers when it has solved its model, the answer is right.  It does
answer, unless the conversion comes upon a coefficient of a column that is not there. -/
theorem solve_statusHolds (he : e.Exact)
    (hreturns : ∀ j, e.model.standardForm e.config.infinity ≠ .error (.strayColumn j))
    (clock : Clock) : (e.solve clock).StatusHolds := by
  cases hresult : e.model.standardForm e.config.infinity with
  | ok f =>
      obtain ⟨hstatus, hsolution⟩ := solve_of_ok clock hresult
      exact statusHolds_of_sound he hresult (he.sound hresult clock) (model_solve clock e)
        (config_solve clock e) hstatus hsolution
  | error o =>
      cases o with
      | strayColumn j => exact absurd hresult (hreturns j)
      | unmeetable i =>
          have hstatus : (e.solve clock).status = .infeasible := by
            rw [solve, hresult]
          rw [StatusHolds, hstatus, model_solve, config_solve]
          exact Model.not_feasible_of_unmeetable he.infinity_pos hresult

/-- An exact engine for the small model. -/
def mixed : Engine ℚ := (create 0 0 ⟨0, 0, 100, none, default⟩).withModel Model.mixed

theorem exact_mixed : mixed.Exact := ⟨rfl, rfl, by decide, by decide⟩

theorem solve_statusHolds_mixed :
    mixed.Exact ∧ (∀ j, mixed.model.standardForm mixed.config.infinity ≠ .error (.strayColumn j)) ∧
      (mixed.solve fun _ => 0).status = .optimal ∧ (mixed.solve fun _ => 0).StatusHolds := by
  have hok : mixed.model.standardForm mixed.config.infinity
      = .ok (mixed.model.converted mixed.config.infinity) := by decide +kernel
  have hreturns : ∀ j, mixed.model.standardForm mixed.config.infinity
      ≠ .error (.strayColumn j) := by
    intro j hj
    rw [hok] at hj
    cases hj
  exact ⟨exact_mixed, hreturns, by decide +kernel,
    solve_statusHolds exact_mixed hreturns fun _ => 0⟩

end Engine
end LinProg
