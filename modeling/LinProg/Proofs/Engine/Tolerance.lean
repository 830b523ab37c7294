/-
Whether the status of a solved model keeps its promise of a feasible solution.

Where the status promises one there is one, and it violates no bound and no
limit of a row by more than the tolerance if the run settles
(`promise_kept`).  A run without a tolerance on its pivots does settle on a
model that has points.

With tolerances on both a run need not settle (`promise_broken`): what is left
of the artificial cost counts as zero, and is then divided by a small entry
when the artificial column is taken out of the basis.  That pivot is said not
to change the solution, and the artificial columns that stay in the basis are
said to stay at zero; both is so just for a cost of zero.
-/
import LinProg.Proofs.Access.Simplex
import LinProg.Proofs.Simplex.Tolerance
import LinProg.Proofs.Engine.Verdict
import LinProg.Engine.Edit

namespace LinProg

variable {α : Type} [Scalar α]

/-! ## Where a solution comes from -/

omit [Scalar α] in
theorem Verdict.exists_solution {v : Verdict α} (h : v.status.hasFeasibleSolution = true) :
    ∃ b, v.solution? = some b := by
  cases v with
  | optimum b => exact ⟨b, rfl⟩
  | interrupted why b =>
      cases why with
      | timeLimit =>
          cases b with
          | none => cases h
          | some b => exact ⟨b, rfl⟩
      | aborted => cases h
  | infeasible => cases h
  | unbounded => cases h
  | numericFailure => cases h
  | cycled => cases h

theorem StandardForm.last?_of_solution? {f : StandardForm α} {tolerances : Tolerances α}
    {control : Control} {b : BasicSolution α}
    (h : (f.minimize tolerances control).verdict.solution? = some b) :
    ∃ t, f.last? tolerances control = some t ∧ t.solution = b := by
  rw [minimize] at h
  rw [last?]
  cases hfirst : ((Tableau.start f tolerances.pivot).firstPhase tolerances.feasibility
      control).result with
  | error v =>
      simp only [hfirst] at h
      rw [Tableau.solution?_of_firstPhase_eq_error hfirst] at h
      cases h
  | ok redundant =>
      simp only [hfirst, Tableau.secondPhase] at h
      exact ⟨_, rfl, (Tableau.eq_of_solution?_conclude h).symm⟩

namespace Engine

/-- The last tableau of a solve, if it comes to the second phase. -/
def last? (clock : Clock) (e : Engine α) : Option (Tableau α) :=
  match e.model.standardForm e.config.infinity with
  | .error _ => none
  | .ok f => f.last? e.tolerances (e.control clock)

/-- Whether a solve ends without negative values and without an artificial column above the
tolerance, if it comes to the second phase. -/
def Settles (clock : Clock) (e : Engine ℚ) : Prop :=
  ∀ t ∈ e.last? clock, t.Settled e.config.feasibilityTolerance

instance (clock : Clock) (e : Engine ℚ) : Decidable (e.Settles clock) :=
  inferInstanceAs (Decidable (∀ t ∈ e.last? clock, _))

/-- An engine with bounds that are not infinite inward, which stores finite values when it has
solved its model. -/
structure BelowInfinity (clock : Clock) (e : Engine ℚ) : Prop where
  columns : ∀ c ∈ e.model.columns, c.lower < e.config.infinity ∧ -e.config.infinity < c.upper
  values : ∀ s ∈ (e.solve clock).solution, ∀ v ∈ s.primal, Scalar.Finite e.config.infinity v

theorem BelowInfinity.meetable {clock : Clock} {e : Engine ℚ} (he : e.BelowInfinity clock) :
    ∀ c ∈ e.model.columns, c.limits.Meetable e.config.infinity := fun c hc =>
  Column.meetable_limits (he.columns c hc).1 (he.columns c hc).2

theorem exists_last?_of_promise {clock : Clock} {e : Engine α}
    (h : (e.solve clock).status.hasFeasibleSolution = true) :
    ∃ f t, e.model.standardForm e.config.infinity = .ok f ∧
      f.last? e.tolerances (e.control clock) = some t ∧
      (e.solve clock).solution = some (Solution.ofBasic e.model f t.solution) := by
  cases hform : e.model.standardForm e.config.infinity with
  | error o =>
      have hstatus : (e.solve clock).status = .infeasible := by rw [solve, hform]
      rw [hstatus] at h
      cases h
  | ok f =>
      obtain ⟨hstatus, hsolution⟩ := solve_of_ok clock hform
      rw [hstatus] at h
      obtain ⟨b, hb⟩ := Verdict.exists_solution h
      obtain ⟨t, ht, rfl⟩ := StandardForm.last?_of_solution? hb
      rw [hb] at hsolution
      exact ⟨f, t, rfl, ht, hsolution⟩

/-! ## Violations -/

theorem isFeasible_solve (clock : Clock) (e : Engine α) :
    (e.solve clock).isFeasible = e.isFeasible := by
  rw [solve]
  split
  · rfl
  · rfl

/-- Values are feasible if there are as many as rows and columns, and one for the objective, and
those of the columns meet every bound and every limit up to the threshold. -/
theorem isFeasible_iff {e : Engine ℚ} {values : List ℚ} {threshold : ℚ} :
    e.isFeasible values threshold = true ↔
      values.length = 1 + e.nrRows + e.nrColumns ∧
        (∀ (j : ℕ) (c : Column ℚ), e.model.columns[j]? = some c →
          c.limits.holds threshold ((values.drop (1 + e.nrRows)).getD j 0) = true) ∧
        ∀ r ∈ e.model.rows,
          r.limits.holds threshold (r.coefficients.dot (values.drop (1 + e.nrRows))) = true := by
  simp only [isFeasible, Bool.and_eq_true, decide_eq_true_eq, List.all_eq_true, and_assoc]
  refine and_congr_right fun hlength => and_congr_left fun _ => ?_
  have hlen : (values.drop (1 + e.nrRows)).length = e.model.columns.length := by
    rw [List.length_drop, hlength]
    exact Nat.add_sub_cancel_left _ _
  constructor
  · intro h j c hc
    have hj : j < (values.drop (1 + e.nrRows)).length :=
      hlen ▸ (List.getElem?_eq_some_iff.mp hc).1
    rw [List.getD_eq_getElem _ _ hj]
    obtain ⟨hlower, hupper⟩ := h (c, _)
      (List.mem_of_getElem? (List.getElem?_zip_eq_some.mpr ⟨hc, List.getElem?_eq_getElem hj⟩))
    exact Bool.and_eq_true_iff.mpr ⟨decide_eq_true hlower, decide_eq_true hupper⟩
  · rintro h ⟨c, v⟩ hcv
    obtain ⟨j, hj⟩ := List.getElem?_of_mem hcv
    obtain ⟨hc, hv⟩ := List.getElem?_zip_eq_some.mp hj
    have hholds := h j c hc
    rw [List.getD_eq_getElem?_getD, hv] at hholds
    obtain ⟨hlower, hupper⟩ := Bool.and_eq_true_iff.mp hholds
    exact ⟨of_decide_eq_true hlower, of_decide_eq_true hupper⟩

/-- A solution of a model is feasible if the values of its columns meet every bound and every limit
up to the threshold. -/
theorem isFeasible_ofBasic {e : Engine ℚ} {f : StandardForm ℚ} {b : BasicSolution ℚ}
    {threshold : ℚ} (hlength : (f.point b.values).length = e.nrColumns)
    (hcolumns : ∀ (j : ℕ) (c : Column ℚ), e.model.columns[j]? = some c →
      c.limits.holds threshold ((f.point b.values).getD j 0) = true)
    (hrows : ∀ r ∈ e.model.rows,
      r.limits.holds threshold (r.coefficients.dot (f.point b.values)) = true) :
    e.isFeasible (Solution.ofBasic e.model f b).primal threshold = true := by
  have hdrop : (Solution.ofBasic e.model f b).primal.drop (1 + e.nrRows) = f.point b.values :=
    columns_ofBasic e.model f b
  rw [isFeasible_iff, hdrop]
  refine ⟨?_, hcolumns, hrows⟩
  have hlen : (Solution.ofBasic e.model f b).primal.length
      = (e.model.rows.map _ ++ f.point b.values).length + 1 := rfl
  rw [hlen, List.length_append, List.length_map, hlength, nrRows, Model.nrRows]
  omega

/-- Where the status promises a feasible solution there is one.  It violates no bound and no limit
by more than the tolerance if the solve settles, as it does without a tolerance on the pivots where
the model has points or no artificial cost is accepted. -/
theorem promise_kept {clock : Clock} {e : Engine ℚ} (he : e.BelowInfinity clock)
    (hepsilon : 0 ≤ e.config.epsilon) (htolerance : 0 ≤ e.config.feasibilityTolerance)
    (hstatus : (e.solve clock).status.hasFeasibleSolution = true) :
    ∃ s, (e.solve clock).solution = some s ∧
      (e.Settles clock →
        (e.solve clock).isFeasible s.primal e.config.feasibilityTolerance = true) ∧
      (e.config.epsilon = 0 →
        (0 < e.config.feasibilityTolerance → ∃ x, e.model.Feasible e.config.infinity x) →
        e.Settles clock) := by
  obtain ⟨f, t, hform, hlast, hsolution⟩ := exists_last?_of_promise hstatus
  have hproper := Model.proper_of_standardForm hform
  have hvalues := he.values _ hsolution
  -- the solution holds an objective at least, and that is below infinity in size
  have hinfinity : 0 < e.config.infinity := by
    obtain ⟨hlower, hupper⟩ := hvalues _ List.mem_cons_self
    linarith
  have hengine : e.last? clock = some t := by
    rw [last?, hform]
    exact hlast
  refine ⟨_, hsolution, ?_, ?_⟩
  · intro hsettles
    have hy : f.SolvesWithin e.config.feasibilityTolerance t.solution.values :=
      (Tableau.restates_of_last? hproper hepsilon hlast).solvesWithin hproper htolerance
        (hsettles t hengine)
    obtain ⟨hcolumns, hrows⟩ := Model.respectsWithin_point htolerance hform hy
    have hlength : (f.point t.solution.values).length = e.nrColumns := by
      obtain ⟨-, -, rfl⟩ := Model.standardForm_eq_ok hform
      exact Model.length_point _
    rw [isFeasible_solve]
    refine isFeasible_ofBasic hlength ?_ ?_
    · intro j c hc
      refine (hcolumns j c hc).holds htolerance (he.meetable c (List.mem_of_getElem? hc)) ?_
      have hj : j < (f.point t.solution.values).length :=
        (List.getElem?_eq_some_iff.mp hc).1.trans_eq hlength.symm
      rw [List.getD_eq_getElem _ _ hj]
      exact hvalues _ (List.mem_cons_of_mem _ (List.mem_append_right _ (List.getElem_mem hj)))
    · intro r hr
      refine (hrows r hr).holds htolerance (Model.meetable_of_standardForm hinfinity hform r hr) ?_
      exact hvalues _ (List.mem_cons_of_mem _
        (List.mem_append_left _ (List.mem_map.mpr ⟨r, hr, rfl⟩)))
  · intro hexact hpoint t' ht'
    obtain rfl : t = t' := Option.some.inj (hengine.symm.trans ht')
    refine Tableau.settled_of_exact hproper hexact htolerance ?_ hlast
    intro hpos
    obtain ⟨x, hx⟩ := hpoint hpos
    obtain ⟨y, hy, -⟩ := Model.exists_solves_of_respects hinfinity hform hx.toRespects
    exact ⟨y, hy⟩

/-- The small model in an engine with the options that hold unless others are given. -/
def mixedStandard : Engine ℚ := mixed.setConfig .standard

/-- With and without tolerances the solve of the small model settles. -/
theorem promise_kept_mixed :
    mixedStandard.BelowInfinity (fun _ => 0) ∧
      0 < mixedStandard.config.epsilon ∧ 0 < mixedStandard.config.feasibilityTolerance ∧
      (mixedStandard.solve fun _ => 0).status = .optimal ∧
      (∃ s, (mixedStandard.solve fun _ => 0).solution = some s ∧
        (mixedStandard.solve fun _ => 0).isFeasible s.primal
          mixedStandard.config.feasibilityTolerance = true) ∧
      mixed.BelowInfinity (fun _ => 0) ∧ mixed.Settles fun _ => 0 := by
  have hstandard : mixedStandard.BelowInfinity fun _ => 0 :=
    ⟨by decide +kernel, by decide +kernel⟩
  have hmixed : mixed.BelowInfinity fun _ => 0 := ⟨by decide +kernel, by decide +kernel⟩
  obtain ⟨s, hs, hfeasible, -⟩ := promise_kept hstandard (by decide +kernel) (by decide +kernel)
    (by decide +kernel)
  obtain ⟨-, -, -, hsettles⟩ := promise_kept hmixed le_rfl le_rfl (by decide +kernel)
  refine ⟨hstandard, by decide +kernel, by decide +kernel, by decide +kernel, ⟨s, hs, ?_⟩, hmixed,
    hsettles rfl fun h => absurd h (lt_irrefl 0)⟩
  exact hfeasible (by decide +kernel)

/-- An engine with the options that hold unless others are given, for one nonnegative variable that
is to be one twentieth by a row with a small coefficient, and zero by another. -/
def torn : Engine ℚ :=
  (create 0 1 .standard).performAll
    [.appendConstraint ⟨1, [1 / 1000000], [1]⟩ .equal (1 / 20000000),
      .appendConstraint ⟨1, [-1], [1]⟩ .equal 0]

/-- The artificial cost of the first row counts as zero.  Taking its artificial column out of the
basis divides it by the small coefficient, and the second row, whose artificial column stays, is
violated by one twentieth. -/
theorem promise_broken :
    torn.BelowInfinity (fun _ => 0) ∧
      0 ≤ torn.config.epsilon ∧ 0 ≤ torn.config.feasibilityTolerance ∧
      (torn.solve fun _ => 0).status.hasFeasibleSolution = true ∧
      (torn.solve fun _ => 0).solution.map Solution.primal
        = some [0, 1 / 20000000, -1 / 20, 1 / 20] ∧
      (torn.solve fun _ => 0).isFeasible [0, 1 / 20000000, -1 / 20, 1 / 20]
        torn.config.feasibilityTolerance = false :=
  ⟨⟨by decide +kernel, by decide +kernel⟩, by decide +kernel, by decide +kernel,
    by decide +kernel, by decide +kernel, by decide +kernel⟩

end Engine
end LinProg
