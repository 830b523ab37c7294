/-
The points that a model describes.

A limit of the size of infinity is none when it points outward, and cannot
be met when it points inward.  A model is open to points when all its
limits can be met; then its points are those that keep to the finite ones.
-/
import LinProg.Proofs.Sparse
import LinProg.Model.Limits

namespace LinProg

variable {infinity : ℚ}

def Scalar.Finite (infinity a : ℚ) : Prop := -infinity < a ∧ a < infinity

instance (infinity a : ℚ) : Decidable (Scalar.Finite infinity a) :=
  inferInstanceAs (Decidable (_ ∧ _))

namespace Limits

/-- Whether a value keeps to the finite limits. -/
structure Respects (infinity : ℚ) (l : Limits ℚ) (x : ℚ) : Prop where
  lower : ∀ a, l.lower = some a → Scalar.Finite infinity a → a ≤ x
  upper : ∀ b, l.upper = some b → Scalar.Finite infinity b → x ≤ b

/-- Whether a value keeps to the finite limits up to a tolerance. -/
structure RespectsWithin (tolerance infinity : ℚ) (l : Limits ℚ) (x : ℚ) : Prop where
  lower : ∀ a, l.lower = some a → Scalar.Finite infinity a → a - tolerance ≤ x
  upper : ∀ b, l.upper = some b → Scalar.Finite infinity b → x ≤ b + tolerance

/-- Whether no limit is infinite inward. -/
structure Meetable (infinity : ℚ) (l : Limits ℚ) : Prop where
  lower : ∀ a, l.lower = some a → a < infinity
  upper : ∀ b, l.upper = some b → -infinity < b

variable {l : Limits ℚ}

theorem RespectsWithin.respects {x : ℚ} (h : l.RespectsWithin 0 infinity x) :
    l.Respects infinity x where
  lower a ha hfin := by simpa only [sub_zero] using h.lower a ha hfin
  upper b hb hfin := by simpa only [add_zero] using h.upper b hb hfin

/-- A finite value meets the infinite limits as well, unless one of them is infinite inward. -/
theorem RespectsWithin.holds {tolerance x : ℚ} (h : l.RespectsWithin tolerance infinity x)
    (htolerance : 0 ≤ tolerance) (hmeet : l.Meetable infinity) (hx : Scalar.Finite infinity x) :
    l.holds tolerance x = true := by
  rw [Limits.holds, Bool.and_eq_true, Option.all_eq_true, Option.all_eq_true]
  constructor
  · intro a ha
    rw [decide_eq_true_eq]
    rcases lt_or_ge (-infinity) a with hfin | hinf
    · exact h.lower a ha ⟨hfin, hmeet.lower a ha⟩
    · linarith [hx.1]
  · intro b hb
    rw [decide_eq_true_eq]
    rcases lt_or_ge b infinity with hfin | hinf
    · exact h.upper b hb ⟨hmeet.upper b hb, hfin⟩
    · linarith [hx.2]

theorem filter_finite_eq_some {side : Option ℚ} {a : ℚ} :
    (side.filter fun a => !Scalar.isInfinite infinity a) = some a
      ↔ side = some a ∧ Scalar.Finite infinity a := by
  rw [Option.filter_eq_some_iff, Bool.not_eq_true', Scalar.not_isInfinite_iff]
  rfl

theorem finiteLower?_eq_some {a : ℚ} :
    l.finiteLower? infinity = some a ↔ l.lower = some a ∧ Scalar.Finite infinity a :=
  filter_finite_eq_some

theorem finiteUpper?_eq_some {b : ℚ} :
    l.finiteUpper? infinity = some b ↔ l.upper = some b ∧ Scalar.Finite infinity b :=
  filter_finite_eq_some

theorem point?_eq_some {a : ℚ} : l.point? = some a ↔ l.lower = some a ∧ l.upper = some a := by
  rw [point?]
  cases l.lower with
  | none => simp
  | some b =>
      cases l.upper with
      | none => simp
      | some c =>
          simp only [beq_iff_eq, Option.ite_none_right_eq_some, Option.some.injEq]
          constructor
          · rintro ⟨rfl, rfl⟩
            exact ⟨rfl, rfl⟩
          · rintro ⟨rfl, rfl⟩
            exact ⟨rfl, rfl⟩

theorem Meetable.finite_of_point (h : l.Meetable infinity) {a : ℚ} (ha : l.point? = some a) :
    l.finiteLower? infinity = some a ∧ l.finiteUpper? infinity = some a := by
  obtain ⟨hl, hu⟩ := point?_eq_some.mp ha
  have hfin : Scalar.Finite infinity a := ⟨h.upper a hu, h.lower a hl⟩
  exact ⟨finiteLower?_eq_some.mpr ⟨hl, hfin⟩, finiteUpper?_eq_some.mpr ⟨hu, hfin⟩⟩

theorem not_meetable_iff :
    ¬ l.Meetable infinity ↔ (∃ a, l.lower = some a ∧ infinity ≤ a) ∨
      ∃ b, l.upper = some b ∧ b ≤ -infinity := by
  have hmeet : l.Meetable infinity ↔
      (∀ a, l.lower = some a → a < infinity) ∧ ∀ b, l.upper = some b → -infinity < b :=
    ⟨fun h => ⟨h.lower, h.upper⟩, fun h => ⟨h.1, h.2⟩⟩
  simp only [hmeet, not_and_or, not_forall, not_lt, exists_prop]

/-- An interval that no value can meet is recognised as such. -/
theorem unmeetable_iff (hI : 0 < infinity) :
    l.unmeetable infinity = true ↔ ¬ l.Meetable infinity := by
  rw [not_meetable_iff, unmeetable]
  cases hp : l.point? with
  | some a =>
      obtain ⟨hl, hu⟩ := point?_eq_some.mp hp
      simp only [hl, hu, Option.some.injEq, exists_eq_left']
      rw [Scalar.isInfinite_iff, le_abs, le_neg]
  | none =>
      simp only [Bool.or_eq_true, Option.any_eq_true, Bool.and_eq_true, Scalar.isInfinite_iff,
        decide_eq_true_eq, le_abs]
      refine or_congr (exists_congr fun a => and_congr_right fun _ => ?_)
        (exists_congr fun b => and_congr_right fun _ => ?_)
      · constructor
        · rintro ⟨h | h, hpos⟩
          · exact h
          · linarith
        · intro h
          exact ⟨Or.inl h, hI.trans_le h⟩
      · constructor
        · rintro ⟨h | h, hneg⟩
          · linarith
          · linarith
        · intro h
          exact ⟨Or.inr (by linarith), by linarith⟩

theorem unmeetable_eq_false_iff (hI : 0 < infinity) :
    l.unmeetable infinity = false ↔ l.Meetable infinity := by
  rw [← Bool.not_eq_true, unmeetable_iff hI, not_not]

end Limits

def Column.limits {α : Type} (c : Column α) : Limits α := ⟨some c.lower, some c.upper⟩

theorem Column.meetable_limits {c : Column ℚ} (hl : c.lower < infinity) (hu : -infinity < c.upper) :
    c.limits.Meetable infinity := by
  constructor
  · rintro _ ⟨⟩
    exact hl
  · rintro _ ⟨⟩
    exact hu

namespace Model

/-- Whether all coefficients belong to columns that are there. -/
structure Closed {α : Type} (m : Model α) : Prop where
  cost : m.cost.Within m.columns.length
  rows : ∀ r ∈ m.rows, r.coefficients.Within m.columns.length

/-- Whether the coefficients of the cost and of each row are listed by increasing column. -/
structure Sorted {α : Type} (m : Model α) : Prop where
  cost : m.cost.Sorted
  rows : ∀ r ∈ m.rows, r.coefficients.Sorted

/-- Whether values of the variables keep to the finite bounds and to the finite limits of the
rows. -/
structure Respects (infinity : ℚ) (m : Model ℚ) (x : List ℚ) : Prop where
  length : x.length = m.nrColumns
  columns : ∀ (j : ℕ) (c : Column ℚ), m.columns[j]? = some c →
    c.limits.Respects infinity (x.getD j 0)
  rows : ∀ r ∈ m.rows, r.limits.Respects infinity (r.coefficients.dot x)

/-- Whether values of the variables are a point of the model: they keep to the finite bounds and
limits, and none of the infinite ones points inward. -/
structure Feasible (infinity : ℚ) (m : Model ℚ) (x : List ℚ) : Prop
    extends Respects infinity m x where
  meetable_columns : ∀ c ∈ m.columns, c.limits.Meetable infinity
  meetable_rows : ∀ r ∈ m.rows, r.limits.Meetable infinity

/-- A small model with variables of three shapes and rows of all relations: the greatest value of
`x + 2 y` for `-2 ≤ x + y ≤ 4`, `y - z = 1`, `x + z ≥ -1`, where `0 ≤ x ≤ 3`, `z ≤ 2` and one
hundred is infinite. -/
def mixed : Model ℚ :=
  { sense := .maximize
    cost := [(0, 1), (1, 2)]
    rows :=
      [⟨[(0, 1), (1, 1)], .less, 4, some 6, none⟩, Row.plain [(1, 1), (2, -1)] .equal 1,
        Row.plain [(0, 1), (2, 1)] .greater (-1)]
    columns := [⟨0, 3, none⟩, ⟨-100, 100, none⟩, ⟨-100, 2, none⟩] }

theorem closed_mixed : mixed.Closed := ⟨by decide, by decide⟩

end Model
end LinProg
