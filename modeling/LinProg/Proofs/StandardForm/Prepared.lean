/-
What the conversion to standard form hands to the simplex method.

The columns of a standard form are numbered in two passes, first those that the
variables are made of and then one for each inequality, and the rows are turned
around in between.  Nothing of this is looked at again when the first tableau is
made: every row has to be as wide as the cost, no right-hand side may be
negative, and a column that a row offers for the first basis is taken for a unit
vector that costs nothing.

So a prepared standard form is described by its columns.  Those of the variables
come first, each in one substitution.  Every column behind them is the slack of
one row (`Slack`): it is one or minus one there, zero in all other rows, and
free.  The rows whose slack is one offer it.
-/
import LinProg.Proofs.StandardForm.Conversion

namespace LinProg

def Origin.row? {α : Type} : Origin α → Option ℕ
  | .bound => none
  | .constraint i _ => some i

/-! ## The parts of a standard form -/

namespace StandardForm

section Parts

variable {α : Type} (f : StandardForm α)

def matrix : List (List α) := f.equations.map Equation.coefficients

def rightSides : List α := f.equations.map Equation.value

/-- The column that each row offers for the first basis, if it does. -/
def offers : List (Option ℕ) := f.equations.map Equation.basic

def origins : List (Origin α) := f.equations.map Equation.origin

/-- The first column behind those of the variables. -/
def firstSlack : ℕ := (f.substitutions.map fun s => s.parts.length).sum

end Parts

/-- A column is the slack of a row: it is of the given sign there and zero in every other row, it
costs nothing, and no variable is made of it. -/
structure Slack (f : StandardForm ℚ) (row column : ℕ) (sign : ℚ) : Prop where
  row_lt : row < f.matrix.length
  firstSlack_le : f.firstSlack ≤ column
  column_lt : column < f.cost.length
  entry : ∀ k coefficients, f.matrix[k]? = some coefficients →
    coefficients.getD column 0 = if k = row then sign else 0
  cost : f.cost.getD column 0 = 0

/-- A standard form of a model that the simplex method can start on. -/
structure Prepared (infinity : ℚ) (m : Model ℚ) (f : StandardForm ℚ) : Prop where
  /-- Every row is as wide as the cost. -/
  width : ∀ coefficients ∈ f.matrix, coefficients.length = f.cost.length
  length_rightSides : f.rightSides.length = f.matrix.length
  length_offers : f.offers.length = f.matrix.length
  length_origins : f.origins.length = f.matrix.length
  nonneg : ∀ b ∈ f.rightSides, 0 ≤ b
  /-- A row offers just the slack that is one in it. -/
  offers_iff : ∀ i j : ℕ, f.offers[i]? = some (some j) ↔ f.Slack i j 1
  offers_inj : ∀ i k j : ℕ, f.offers[i]? = some (some j) → f.offers[k]? = some (some j) → i = k
  /-- Every column behind those of the variables is the slack of a row. -/
  slacks : ∀ j, f.firstSlack ≤ j → j < f.cost.length → ∃ i, f.Slack i j 1 ∨ f.Slack i j (-1)
  within : ∀ s ∈ f.substitutions, Sparse.Within f.firstSlack s.parts
  /-- No two variables are made of one column. -/
  apart : f.substitutions.Pairwise fun s s' => ∀ e ∈ s.parts, ∀ e' ∈ s'.parts, e.1 ≠ e'.1
  /-- Every column before the first slack belongs to a variable. -/
  used : ∀ j < f.firstSlack, ∃ s ∈ f.substitutions, ∃ e ∈ s.parts, e.1 = j
  /-- A row of the model has one row for each of its finite limits, or one for both if they are the
  same; that is none, one or two. -/
  count : ∀ (i : ℕ) (r : Row ℚ), m.rows[i]? = some r →
    f.origins.countP (fun o => o.row? = some i) = r.limits.count infinity ∧
      r.limits.count infinity ≤ 2
  /-- A row that names a row of the model as its origin states it, up to the sign that it names. -/
  named : ∀ (k i : ℕ) (sign : ℚ), f.origins[k]? = some (Origin.constraint i sign) →
    (sign = 1 ∨ sign = -1) ∧ ∃ r coefficients, m.rows[i]? = some r ∧
      f.matrix[k]? = some coefficients ∧ ∀ j < f.firstSlack,
        coefficients.getD j 0 = sign * Sparse.weight (r.substituted f.substitutions) j

end StandardForm

/-! ## Columns of variables -/

section Columns

variable {α : Type} [Scalar α] {infinity : α}

theorem Column.columns_substitution (next : ℕ) (c : Column α) :
    (c.substitution infinity next).parts.map Prod.fst
      = List.range' next (c.substitution infinity next).parts.length := by
  rw [substitution]
  split
  · rfl
  · split
    · rfl
    · rfl

theorem Model.columns_substitutionsFrom (next : ℕ) (cs : List (Column α)) :
    ((substitutionsFrom infinity next cs).flatMap fun s => s.parts.map Prod.fst)
      = List.range' next ((substitutionsFrom infinity next cs).map fun s => s.parts.length).sum := by
  induction cs generalizing next with
  | nil => rfl
  | cons c cs ih =>
      rw [substitutionsFrom, List.flatMap_cons, ih, Column.columns_substitution, List.map_cons,
        List.sum_cons, List.range'_append_1]

end Columns

/-! ## Slacks -/

namespace StandardForm

variable {f : StandardForm ℚ}

theorem Slack.eq_of_ne_zero {i k j : ℕ} {s s' : ℚ} (h : f.Slack i j s) (h' : f.Slack k j s')
    (hs : s ≠ 0) : i = k ∧ s = s' := by
  have hentry := h.entry i _ (List.getElem?_eq_getElem h.row_lt)
  have hentry' := h'.entry i _ (List.getElem?_eq_getElem h.row_lt)
  rw [hentry, if_pos rfl] at hentry'
  by_cases hik : i = k
  · rw [if_pos hik] at hentry'
    exact ⟨hik, hentry'⟩
  · rw [if_neg hik] at hentry'
    exact absurd hentry' hs

end StandardForm

namespace Pending

variable {p : Pending ℚ} {width c : ℕ}

theorem basic_equation_of_pos {s : ℚ} (hs : p.slack = some s) (hpos : 0 < p.flip * s) :
    (p.equation width c).basic = some c := by
  have hbasic : (p.equation width c).basic
      = p.slack.bind fun s => if 0 < p.flip * s then some c else none := rfl
  rw [hbasic, hs, Option.bind_some, if_pos hpos]

theorem row?_origin_equation : (p.equation width c).origin.row? = p.row := by
  rw [equation]
  cases p.row with
  | none => rfl
  | some i => rfl

end Pending

namespace StandardForm.Layout

open Pending

variable {f : StandardForm ℚ} {structural : ℕ} {ps : List (Pending ℚ)}
variable (hf : f.Layout structural ps)
include hf

/-- Whatever is read off the rows of a standard form is read off its limits. -/
theorem getElem?_map_equations {β : Type} {g : Equation ℚ → β} {k : ℕ} {x : β} :
    (f.equations.map g)[k]? = some x
      ↔ ∃ p, ps[k]? = some p ∧ g (p.equation f.nrColumns (slackColumn structural ps k)) = x := by
  rw [List.getElem?_map, hf.getElem?_equations, Option.map_map, Option.map_eq_some_iff]
  rfl

theorem slack_slackColumn (hfirst : f.firstSlack = structural) {i : ℕ} {p : Pending ℚ} {s : ℚ}
    (hp : ps[i]? = some p) (hs : p.slack = some s) :
    f.Slack i (slackColumn structural ps i) (p.flip * s) where
  row_lt := by
    rw [matrix, List.length_map, hf.equations, length_equations]
    exact (List.getElem?_eq_some_iff.mp hp).1
  firstSlack_le := hfirst.trans_le le_slackColumn
  column_lt := hf.slackColumn_lt hp (by rw [hs]; rfl)
  entry k coefficients hk := by
    obtain ⟨p', hp', rfl⟩ := hf.getElem?_map_equations.mp hk
    exact hf.getD_coefficients_slackColumn hp hp' hs
  cost := hf.cost _ le_slackColumn

/-- The columns behind those of the variables are handed out without a gap. -/
theorem exists_slackColumn_eq (hfirst : f.firstSlack = structural) {j : ℕ} (hj : f.firstSlack ≤ j)
    (hlt : j < f.cost.length) :
    ∃ i p s, ps[i]? = some p ∧ p.slack = some s ∧ slackColumn structural ps i = j := by
  have hcount : j - structural < ps.countP fun p => p.slack.isSome := by
    have hwidth : f.cost.length = structural + ps.countP fun p => p.slack.isSome := hf.width
    omega
  obtain ⟨i, p, hp, hsome, hn⟩ := Dense.exists_countP_take hcount
  obtain ⟨s, hs⟩ := Option.isSome_iff_exists.mp hsome
  refine ⟨i, p, s, hp, hs, ?_⟩
  rw [slackColumn, hn]
  omega

theorem offers_iff (hfirst : f.firstSlack = structural) (i j : ℕ) :
    f.offers[i]? = some (some j) ↔ f.Slack i j 1 := by
  rw [offers, hf.getElem?_map_equations]
  constructor
  · rintro ⟨p, hp, hbasic⟩
    obtain ⟨rfl, s, hs, hpos⟩ := basic_equation hbasic
    have hslack := hf.slack_slackColumn hfirst hp hs
    rwa [(hf.fits_of_getElem? hp).flip_mul_slack hs hpos] at hslack
  · intro h
    obtain ⟨k, p, s, hp, hs, rfl⟩ := hf.exists_slackColumn_eq hfirst h.firstSlack_le h.column_lt
    obtain ⟨rfl, hone⟩ := h.eq_of_ne_zero (hf.slack_slackColumn hfirst hp hs) one_ne_zero
    exact ⟨p, hp, basic_equation_of_pos hs (hone ▸ one_pos)⟩

theorem exists_slack (hfirst : f.firstSlack = structural) (j : ℕ) (hj : f.firstSlack ≤ j)
    (hlt : j < f.cost.length) : ∃ i, f.Slack i j 1 ∨ f.Slack i j (-1) := by
  obtain ⟨i, p, s, hp, hs, rfl⟩ := hf.exists_slackColumn_eq hfirst hj hlt
  have hslack := hf.slack_slackColumn hfirst hp hs
  rcases (hf.fits_of_getElem? hp).flip_mul_slack_eq hs with hsign | hsign
  · exact ⟨i, Or.inl (hsign ▸ hslack)⟩
  · exact ⟨i, Or.inr (hsign ▸ hslack)⟩

theorem map_row?_origins : f.origins.map Origin.row? = ps.map Pending.row := by
  refine List.ext_getElem? ?_
  intro k
  rw [origins, List.map_map, List.getElem?_map, hf.getElem?_equations, Option.map_map,
    List.getElem?_map]
  exact congrArg (ps[k]?.map ·) (funext fun _ => row?_origin_equation)

end StandardForm.Layout

/-! ## Origins -/

section Origins

variable {infinity : ℚ} {subs : List (Substitution ℚ)} {index : ℕ}

theorem Limits.count_le_two (l : Limits ℚ) : l.count infinity ≤ 2 := by
  have hside : ∀ side : Option ℚ, side.toList.length ≤ 1 := by
    intro side
    cases side with
    | none => exact Nat.zero_le 1
    | some a => exact le_rfl
  rw [count]
  cases l.point? with
  | some b => exact one_le_two
  | none => exact Nat.add_le_add (hside _) (hside _)

namespace Model

/-- A row has its own limits and those of no other row. -/
theorem countP_row_pendingFrom {rows : List (Row ℚ)} {i : ℕ} {r : Row ℚ} (hr : rows[i]? = some r) :
    (pendingFrom infinity subs index rows).countP (fun p => p.row = some (index + i))
      = r.limits.count infinity := by
  induction rows generalizing index i with
  | nil => simp at hr
  | cons q rows ih =>
      rw [pendingFrom, List.countP_append]
      cases i with
      | zero =>
          obtain rfl : q = r := by simpa using hr
          -- Its limits come first, and the rows behind it have greater numbers.
          have hfirst : ∀ p ∈ q.pending infinity subs index, decide (p.row = some (index + 0)) :=
            fun p hp => decide_eq_true (Row.of_mem_pending hp).2
          have hrest : ∀ p ∈ pendingFrom infinity subs (index + 1) rows,
              ¬ decide (p.row = some (index + 0)) := by
            intro p hp
            obtain ⟨k, _, -, hp⟩ := mem_pendingFrom.mp hp
            rw [(Row.of_mem_pending hp).2, decide_eq_true_eq, Option.some.injEq]
            omega
          rw [List.countP_eq_length.mpr hfirst, List.countP_eq_zero.mpr hrest, Row.length_pending,
            Nat.add_zero]
      | succ i =>
          have hfirst : ∀ p ∈ q.pending infinity subs index,
              ¬ decide (p.row = some (index + (i + 1))) := by
            intro p hp
            rw [(Row.of_mem_pending hp).2, decide_eq_true_eq, Option.some.injEq]
            omega
          rw [List.countP_eq_zero.mpr hfirst, Nat.zero_add, ← Nat.add_assoc,
            Nat.add_right_comm]
          exact ih (by simpa using hr)

variable {m : Model ℚ}

theorem countP_row_pending {i : ℕ} {r : Row ℚ} (hr : m.rows[i]? = some r) :
    (m.pending infinity).countP (fun p => p.row = some i) = r.limits.count infinity := by
  have hbounds : ∀ p ∈ boundRowsFrom infinity 0 m.columns, ¬ decide (p.row = some i) := by
    intro p hp
    rw [row_boundRowsFrom infinity 0 m.columns p hp]
    simp
  rw [pending, List.countP_append, List.countP_eq_zero.mpr hbounds, Nat.zero_add,
    ← countP_row_pendingFrom hr, Nat.zero_add]

end Model

end Origins

/-! ## The standard form of a model -/

namespace Model

variable {infinity : ℚ} {m : Model ℚ} {f : StandardForm ℚ}

theorem firstSlack_converted (infinity : ℚ) (m : Model ℚ) :
    (m.converted infinity).firstSlack = m.structural infinity := by
  rw [structural, ← foldr_length_parts, Nat.zero_add, StandardForm.firstSlack,
    List.sum_eq_foldr, List.foldr_map]
  rfl

theorem columns_substitutions :
    ((m.substitutions infinity).flatMap fun s => s.parts.map Prod.fst)
      = List.range (m.converted infinity).firstSlack := by
  rw [substitutions, columns_substitutionsFrom, List.range_eq_range']
  rfl

theorem apart_substitutions :
    (m.substitutions infinity).Pairwise fun s s' =>
      ∀ e ∈ s.parts, ∀ e' ∈ s'.parts, e.1 ≠ e'.1 := by
  have hnodup : ((m.substitutions infinity).flatMap fun s => s.parts.map Prod.fst).Nodup :=
    columns_substitutions ▸ List.nodup_range
  refine (List.nodup_flatMap.mp hnodup).2.imp ?_
  intro s s' hdisjoint e he e' he' heq
  exact hdisjoint (List.mem_map_of_mem he) (heq ▸ List.mem_map_of_mem he')

theorem exists_part {j : ℕ} (hj : j < (m.converted infinity).firstSlack) :
    ∃ s ∈ m.substitutions infinity, ∃ e ∈ s.parts, e.1 = j := by
  rw [← List.mem_range, ← columns_substitutions] at hj
  obtain ⟨s, hs, hj⟩ := List.mem_flatMap.mp hj
  exact ⟨s, hs, List.mem_map.mp hj⟩

theorem countP_row?_origins {i : ℕ} {r : Row ℚ} (hr : m.rows[i]? = some r) :
    (m.converted infinity).origins.countP (fun o => o.row? = some i)
      = r.limits.count infinity := by
  rw [← countP_row_pending hr]
  have hrows := congrArg (List.countP fun o => o = some i)
    (layout_converted infinity m).map_row?_origins
  rwa [List.countP_map, List.countP_map] at hrows

/-- An equation that names a row has its coefficients, up to the sign that it names. -/
theorem exists_row_of_origin {k i : ℕ} {sign : ℚ}
    (h : (m.converted infinity).origins[k]? = some (Origin.constraint i sign)) :
    (sign = 1 ∨ sign = -1) ∧ ∃ r coefficients, m.rows[i]? = some r ∧
      (m.converted infinity).matrix[k]? = some coefficients ∧
      ∀ j < m.structural infinity, coefficients.getD j 0
        = sign * Sparse.weight (r.substituted (m.substitutions infinity)) j := by
  have hf := layout_converted infinity m
  obtain ⟨p, hp, horigin⟩ := hf.getElem?_map_equations.mp h
  obtain ⟨hrow, rfl⟩ := Pending.origin_equation_eq_constraint horigin
  rcases mem_pending (List.mem_of_getElem? hp) with ⟨hnone, -⟩ | ⟨i', r, hr, hrow', hmem⟩
  · rw [hnone] at hrow
    cases hrow
  · obtain rfl := Option.some.inj (hrow'.symm.trans hrow)
    have hcoefficients := (Row.of_mem_pending hmem).1
    exact ⟨Pending.flip_eq _, r, _, hr, hf.getElem?_map_equations.mpr ⟨_, hp, rfl⟩,
      fun j hj => hcoefficients ▸ hf.getD_coefficients_of_lt hp hj⟩

/-- Whenever a model has a standard form the simplex method can start on it. -/
theorem standardForm_prepared (h : m.standardForm infinity = .ok f) : f.Prepared infinity m := by
  obtain ⟨-, -, rfl⟩ := standardForm_eq_ok h
  have hf := layout_converted infinity m
  have hfirst := firstSlack_converted infinity m
  have hoffers := hf.offers_iff hfirst
  exact
    { width := List.forall_mem_map.mpr hf.proper.width
      length_rightSides := (List.length_map _).trans (List.length_map _).symm
      length_offers := (List.length_map _).trans (List.length_map _).symm
      length_origins := (List.length_map _).trans (List.length_map _).symm
      nonneg := List.forall_mem_map.mpr hf.proper.nonneg
      offers_iff := hoffers
      offers_inj := fun i k j hi hk =>
        (((hoffers i j).mp hi).eq_of_ne_zero ((hoffers k j).mp hk) one_ne_zero).1
      slacks := hf.exists_slack hfirst
      within := hfirst ▸ within_parts
      apart := apart_substitutions
      used := fun _ => exists_part
      count := fun i r hr => ⟨countP_row?_origins hr, Limits.count_le_two _⟩
      named := fun k i sign hk => hfirst ▸ exists_row_of_origin hk }

/-- The mixed model behind a row that has no finite limit. -/
def mixedUnlimited : Model ℚ := { mixed with rows := Row.plain [(0, 1)] .less 100 :: mixed.rows }

theorem standardForm_prepared_mixed :
    mixedUnlimited.standardForm 100 = .ok (mixedUnlimited.converted 100) ∧
      (mixedUnlimited.converted 100).Prepared 100 mixedUnlimited ∧
      (mixedUnlimited.converted 100).firstSlack = 4 ∧
      (mixedUnlimited.converted 100).offers = [some 4, some 5, some 6, none, some 7] ∧
      (mixedUnlimited.converted 100).origins.map Origin.row?
        = [none, some 1, some 1, some 2, some 3] := by
  have hok : mixedUnlimited.standardForm 100 = .ok (mixedUnlimited.converted 100) := by
    decide +kernel
  exact ⟨hok, standardForm_prepared hok, by decide +kernel, by decide +kernel, by decide +kernel⟩

end Model
end LinProg
