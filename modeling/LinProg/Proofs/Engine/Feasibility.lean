/-
Where the feasibility check and the solver agree.

The check compares values with the bounds and limits as they are stored,
without asking which of them are infinite.  The standard form leaves out
the limits that are infinite outward and cannot be met by anything if one
is infinite inward.  So values that pass the check are attained by the
standard form just if no row has a limit that is infinite inward, and
values that are attained pass the check just if none of them lies beyond a
limit that is infinite outward.  For values below infinity in size neither
can make a difference, and then the two agree.
-/
import LinProg.Proofs.Engine.Tolerance

namespace LinProg

variable {infinity : ℚ}

namespace Limits

variable {l : Limits ℚ} {x : ℚ}

/-- Whether a value does not lie beyond a limit that is infinite outward. -/
structure Uncrossed (infinity : ℚ) (l : Limits ℚ) (x : ℚ) : Prop where
  lower : ∀ a, l.lower = some a → a ≤ -infinity → a ≤ x
  upper : ∀ b, l.upper = some b → infinity ≤ b → x ≤ b

theorem holds_zero_iff : l.holds 0 x = true ↔
    (∀ a, l.lower = some a → a ≤ x) ∧ ∀ b, l.upper = some b → x ≤ b := by
  simp only [holds, Bool.and_eq_true, Option.all_eq_true, decide_eq_true_eq, sub_zero, add_zero]

theorem respects_of_holds (h : l.holds 0 x = true) : l.Respects infinity x :=
  ⟨fun a ha _ => (holds_zero_iff.mp h).1 a ha, fun b hb _ => (holds_zero_iff.mp h).2 b hb⟩

theorem uncrossed_of_holds (h : l.holds 0 x = true) : l.Uncrossed infinity x :=
  ⟨fun a ha _ => (holds_zero_iff.mp h).1 a ha, fun b hb _ => (holds_zero_iff.mp h).2 b hb⟩

/-- A value that keeps to the finite limits and crosses none that is infinite outward meets all of
them, if none is infinite inward. -/
theorem Uncrossed.holds (h : l.Uncrossed infinity x) (hmeet : l.Meetable infinity)
    (hx : l.Respects infinity x) : l.holds 0 x = true := by
  rw [holds_zero_iff]
  constructor
  · intro a ha
    rcases le_or_gt a (-infinity) with hinf | hfin
    · exact h.lower a ha hinf
    · exact hx.lower a ha ⟨hfin, hmeet.lower a ha⟩
  · intro b hb
    rcases le_or_gt infinity b with hinf | hfin
    · exact h.upper b hb hinf
    · exact hx.upper b hb ⟨hmeet.upper b hb, hfin⟩

theorem uncrossed_of_finite (hx : Scalar.Finite infinity x) : l.Uncrossed infinity x :=
  ⟨fun _ _ ha => ha.trans hx.1.le, fun _ _ hb => hx.2.le.trans hb⟩

theorem meetable_of_finite (h : l.holds 0 x = true) (hx : Scalar.Finite infinity x) :
    l.Meetable infinity :=
  ⟨fun a ha => ((holds_zero_iff.mp h).1 a ha).trans_lt hx.2,
    fun b hb => hx.1.trans_le ((holds_zero_iff.mp h).2 b hb)⟩

end Limits

/-! ## The check and the standard form -/

namespace Engine

variable {e : Engine ℚ} {values x : List ℚ}

/-- Whether the standard form has a solution in which the variables have given values. -/
def Attains (e : Engine ℚ) (x : List ℚ) : Prop :=
  ∃ f, e.model.standardForm e.config.infinity = .ok f ∧ ∃ y, f.Solves y ∧ f.point y = x

/-- Whether no value of a variable or of a row lies beyond a limit that is infinite outward. -/
structure Uncrossed (e : Engine ℚ) (x : List ℚ) : Prop where
  columns : ∀ (j : ℕ) (c : Column ℚ), e.model.columns[j]? = some c →
    c.limits.Uncrossed e.config.infinity (x.getD j 0)
  rows : ∀ r ∈ e.model.rows, r.limits.Uncrossed e.config.infinity (r.coefficients.dot x)

/-- What is attained is what keeps to the finite bounds and limits, unless a row cannot be met. -/
theorem attains_iff (hpos : 0 < e.config.infinity) (hclosed : e.model.Closed) :
    e.Attains x ↔ e.model.Respects e.config.infinity x ∧
      ∀ r ∈ e.model.rows, r.limits.Meetable e.config.infinity := by
  constructor
  · rintro ⟨f, hf, y, hy, rfl⟩
    exact ⟨Model.respects_point hpos hf hy, Model.meetable_of_standardForm hpos hf⟩
  · rintro ⟨hx, hmeet⟩
    cases hform : e.model.standardForm e.config.infinity with
    | ok f => exact ⟨f, hform, Model.exists_solves_of_respects hpos hform hx⟩
    | error o =>
        cases o with
        | strayColumn j => exact absurd hform (Model.standardForm_ne_strayColumn hclosed j)
        | unmeetable i =>
            obtain ⟨r, hr, h⟩ := (Model.standardForm_eq_unmeetable_iff hclosed).mp ⟨i, hform⟩
            exact absurd (hmeet r hr) ((Limits.unmeetable_iff hpos).mp h)

/-- Values that pass the check are attained, unless a row cannot be met. -/
theorem attains_iff_of_isFeasible (hpos : 0 < e.config.infinity) (hclosed : e.model.Closed)
    (h : e.isFeasible values 0 = true) :
    e.Attains (values.drop (1 + e.nrRows)) ↔
      ∀ r ∈ e.model.rows, r.limits.Meetable e.config.infinity := by
  obtain ⟨hlength, hcolumns, hrows⟩ := isFeasible_iff.mp h
  rw [attains_iff hpos hclosed]
  refine ⟨fun h => h.2, fun hmeet => ⟨⟨?_, ?_, ?_⟩, hmeet⟩⟩
  · rw [List.length_drop, hlength]
    exact Nat.add_sub_cancel_left _ _
  · exact fun j c hc => Limits.respects_of_holds (hcolumns j c hc)
  · exact fun r hr => Limits.respects_of_holds (hrows r hr)

/-- Values that are attained pass the check, unless one of them lies beyond a limit that is infinite
outward. -/
theorem isFeasible_iff_of_attains (hpos : 0 < e.config.infinity) (hclosed : e.model.Closed)
    (hmeet : ∀ c ∈ e.model.columns, c.limits.Meetable e.config.infinity)
    (hlength : values.length = 1 + e.nrRows + e.nrColumns)
    (h : e.Attains (values.drop (1 + e.nrRows))) :
    e.isFeasible values 0 = true ↔ e.Uncrossed (values.drop (1 + e.nrRows)) := by
  obtain ⟨hrespects, hmeet_rows⟩ := (attains_iff hpos hclosed).mp h
  rw [isFeasible_iff]
  constructor
  · rintro ⟨-, hcolumns, hrows⟩
    exact ⟨fun j c hc => Limits.uncrossed_of_holds (hcolumns j c hc),
      fun r hr => Limits.uncrossed_of_holds (hrows r hr)⟩
  · rintro ⟨hcolumns, hrows⟩
    refine ⟨hlength, fun j c hc => ?_, fun r hr => ?_⟩
    · exact (hcolumns j c hc).holds (hmeet c (List.mem_of_getElem? hc)) (hrespects.columns j c hc)
    · exact (hrows r hr).holds (hmeet_rows r hr) (hrespects.rows r hr)

/-- The feasibility check without a threshold against the standard form, for a model whose bounds
are not infinite inward and all values of its columns.  Both ways the only thing that can make a
difference is told, and it takes a value of the size of infinity. -/
theorem check_agrees (hpos : 0 < e.config.infinity) (hclosed : e.model.Closed)
    (hbounds : ∀ c ∈ e.model.columns, c.lower < e.config.infinity ∧ -e.config.infinity < c.upper)
    (hlength : values.length = 1 + e.nrRows + e.nrColumns) :
    let x := values.drop (1 + e.nrRows)
    (e.isFeasible values 0 = true →
        (e.Attains x ↔ ∀ r ∈ e.model.rows, r.limits.Meetable e.config.infinity)) ∧
      (e.Attains x → (e.isFeasible values 0 = true ↔ e.Uncrossed x)) ∧
      ((∀ v ∈ x, Scalar.Finite e.config.infinity v) →
        (∀ r ∈ e.model.rows, Scalar.Finite e.config.infinity (r.coefficients.dot x)) →
        (e.isFeasible values 0 = true ↔ e.Attains x)) := by
  intro x
  have hmeet : ∀ c ∈ e.model.columns, c.limits.Meetable e.config.infinity := fun c hc =>
    Column.meetable_limits (hbounds c hc).1 (hbounds c hc).2
  refine ⟨attains_iff_of_isFeasible hpos hclosed,
    isFeasible_iff_of_attains hpos hclosed hmeet hlength, fun hx hactivity => ⟨?_, ?_⟩⟩
  · intro h
    refine (attains_iff_of_isFeasible hpos hclosed h).mpr fun r hr => ?_
    exact Limits.meetable_of_finite ((isFeasible_iff.mp h).2.2 r hr) (hactivity r hr)
  · intro h
    refine (isFeasible_iff_of_attains hpos hclosed hmeet hlength h).mpr ⟨fun j c hc => ?_, ?_⟩
    · have hj : j < x.length := by
        rw [List.length_drop, hlength, Nat.add_sub_cancel_left]
        exact (List.getElem?_eq_some_iff.mp hc).1
      rw [List.getD_eq_getElem _ _ hj]
      exact Limits.uncrossed_of_finite (hx _ (List.getElem_mem hj))
    · exact fun r hr => Limits.uncrossed_of_finite (hactivity r hr)

/-- The point `(3, 1, 0)` of the small model, after values for the objective and the rows. -/
theorem check_agrees_mixed :
    0 < mixed.config.infinity ∧ mixed.model.Closed ∧
      (∀ c ∈ mixed.model.columns,
        c.lower < mixed.config.infinity ∧ -mixed.config.infinity < c.upper) ∧
      mixed.isFeasible [5, 4, 1, 3, 3, 1, 0] 0 = true ∧ mixed.Attains [3, 1, 0] ∧
      mixed.isFeasible [0, 0, 0, 0, 3, 1, 1] 0 = false ∧ ¬ mixed.Attains [3, 1, 1] := by
  have hpos : 0 < mixed.config.infinity := by decide +kernel
  have hbounds : ∀ c ∈ mixed.model.columns,
      c.lower < mixed.config.infinity ∧ -mixed.config.infinity < c.upper := by decide +kernel
  have hfeasible : mixed.isFeasible [5, 4, 1, 3, 3, 1, 0] 0 = true := by decide +kernel
  have hinfeasible : mixed.isFeasible [0, 0, 0, 0, 3, 1, 1] 0 = false := by decide +kernel
  have hlength : ([5, 4, 1, 3, 3, 1, 0] : List ℚ).length = 1 + mixed.nrRows + mixed.nrColumns := by
    decide +kernel
  have hlength' : ([0, 0, 0, 0, 3, 1, 1] : List ℚ).length = 1 + mixed.nrRows + mixed.nrColumns := by
    decide +kernel
  obtain ⟨-, -, hagree⟩ := check_agrees hpos Model.closed_mixed hbounds hlength
  obtain ⟨-, -, hagree'⟩ := check_agrees hpos Model.closed_mixed hbounds hlength'
  refine ⟨hpos, Model.closed_mixed, hbounds, hfeasible,
    (hagree (by decide +kernel) (by decide +kernel)).mp hfeasible, hinfeasible, fun h => ?_⟩
  rw [(hagree' (by decide +kernel) (by decide +kernel)).mpr h] at hinfeasible
  cases hinfeasible

/-- A nonnegative variable without an upper bound, in an engine with the options that hold unless
others are given. -/
def unlimited : Engine ℚ := create 0 1 .standard

/-- The variable can be twice infinity, which does not pass the check; and with a row that asks for
at least infinity, which cannot be met, infinity passes it. -/
theorem check_disagrees :
    unlimited.isFeasible [0, 2e30] 0 = false ∧ unlimited.Attains [2e30] ∧
      let e := unlimited.performAll [.appendConstraintDense [1] .greater 1e30]
      e.isFeasible [0, 1e30, 1e30] 0 = true ∧ ¬ e.Attains [1e30] := by
  refine ⟨by decide +kernel, ?_, by decide +kernel, ?_⟩
  · have hclosed : unlimited.model.Closed := ⟨nofun, nofun⟩
    refine (attains_iff (by decide +kernel) hclosed).mpr ⟨⟨rfl, ?_, nofun⟩, nofun⟩
    intro j c hc
    obtain ⟨hj, rfl⟩ := List.getElem?_eq_some_iff.mp hc
    obtain rfl : j = 0 := Nat.lt_one_iff.mp hj
    refine ⟨?_, ?_⟩
    · rintro _ ⟨⟩ _
      show (0 : ℚ) ≤ 2e30
      norm_num
    · rintro _ ⟨⟩ hfinite
      exact absurd hfinite.2 (lt_irrefl _)
  · rintro ⟨f, hf, -⟩
    have hrow : (unlimited.performAll
        [.appendConstraintDense [1] .greater 1e30]).model.standardForm unlimited.config.infinity
          = .error (.unmeetable 0) := by decide +kernel
    cases hrow.symm.trans hf

end Engine
end LinProg
