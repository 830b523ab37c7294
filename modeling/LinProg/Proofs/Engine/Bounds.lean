/-
When the bounds of the columns stay in order.

New bounds are compared with each other before each of them is cut off at
infinity on its own side only.  So bounds that are both past infinity pass
the comparison and come out crossed; and an infinity that is set later may
come to lie below a finite bound.  An edit is careful if it does neither.
Careful edits keep the bounds of every column in order and none of them
infinite inward, an edit that is not careful does not, and while the bounds
are so the free columns are the ones that are said to be.

Only comparisons matter here, so all of this holds of floating point
numbers, infinite and undefined ones included.
-/
import LinProg.Proofs.Scalar.Binary64
import LinProg.Proofs.Engine.Forms
import LinProg.Proofs.Engine.Translation

namespace LinProg

open Scalar.Ranked

variable {α : Type} [Scalar α]

/-! ## Columns -/

namespace Column

/-- Whether the bounds are in order, and none of them is infinite inward. -/
structure WellBounded (infinity : α) (c : Column α) : Prop where
  ordered : c.lower ≤ c.upper
  lower : c.lower < infinity
  upper : -infinity < c.upper

instance (infinity : α) (c : Column α) : Decidable (c.WellBounded infinity) :=
  decidable_of_iff (c.lower ≤ c.upper ∧ c.lower < infinity ∧ -infinity < c.upper)
    ⟨fun ⟨h, hl, hu⟩ => ⟨h, hl, hu⟩, fun h => ⟨h.ordered, h.lower, h.upper⟩⟩

/-- A column with other bounds, each of them cut off at infinity on its side. -/
def bounded (infinity lower upper : α) (c : Column α) : Column α :=
  { c with
    lower := Scalar.larger lower (-infinity)
    upper := Scalar.smaller upper infinity }

theorem WellBounded.congr {infinity : α} {c d : Column α} (hc : c.WellBounded infinity)
    (h : d.limits = c.limits) : d.WellBounded infinity := by
  obtain ⟨hlower, hupper⟩ := Limits.mk.inj h
  obtain ⟨hl, hu⟩ := And.intro (Option.some.inj hlower) (Option.some.inj hupper)
  refine ⟨?_, ?_, ?_⟩
  · rw [hl, hu]
    exact hc.ordered
  · rw [hl]
    exact hc.lower
  · rw [hu]
    exact hc.upper

variable [Scalar.Ranked α] {infinity new lower upper : α} {c : Column α} {i l u : ℚ}

theorem wellBounded_iff (hi : rank? infinity = some i) (hl : rank? c.lower = some l)
    (hu : rank? c.upper = some u) : c.WellBounded infinity ↔ l ≤ u ∧ l < i ∧ -i < u := by
  rw [← le_iff_of_rank hl hu, ← lt_iff_of_rank hl hi, ← lt_iff_of_rank (rank?_neg_eq hi) hu]
  exact ⟨fun h => ⟨h.ordered, h.lower, h.upper⟩, fun ⟨h, hlower, hupper⟩ => ⟨h, hlower, hupper⟩⟩

theorem WellBounded.exists_ranks (hc : c.WellBounded infinity) :
    ∃ l u, rank? c.lower = some l ∧ rank? c.upper = some u := by
  obtain ⟨l, hl, u, hu, -⟩ := (le_iff _ _).mp hc.ordered
  exact ⟨l, u, hl, hu⟩

theorem wellBounded_nonnegative (hinfinity : 0 < infinity) :
    (nonnegative infinity).WellBounded infinity := by
  obtain ⟨i, hi, hpos⟩ := rank?_of_pos hinfinity
  exact (wellBounded_iff hi rank?_zero hi).mpr ⟨hpos.le, hpos, by linarith⟩

/-- A lower bound that is cut off is infinite inward just if it was so before. -/
theorem larger_lt_iff (hinfinity : 0 < infinity) :
    Scalar.larger lower (-infinity) < infinity ↔ ¬ infinity ≤ lower := by
  obtain ⟨i, hi, hpos⟩ := rank?_of_pos hinfinity
  rw [lt_iff_of_rank (rank?_larger (rank?_neg_eq hi)) hi]
  cases hl : rank? lower with
  | none =>
      have hlt : -i < i := by linarith
      exact iff_of_true hlt (not_le_of_rank (Or.inr hl))
  | some l =>
      rw [Option.elim_some, max_lt_iff, le_iff_of_rank hi hl, not_le]
      exact ⟨fun h => h.2, fun h => ⟨by linarith, h⟩⟩

theorem lt_smaller_iff (hinfinity : 0 < infinity) :
    -infinity < Scalar.smaller upper infinity ↔ ¬ upper ≤ -infinity := by
  obtain ⟨i, hi, hpos⟩ := rank?_of_pos hinfinity
  rw [lt_iff_of_rank (rank?_neg_eq hi) (rank?_smaller hi)]
  cases hu : rank? upper with
  | none =>
      have hlt : -i < i := by linarith
      exact iff_of_true hlt (not_le_of_rank (Or.inl hu))
  | some u =>
      rw [Option.elim_some, lt_min_iff, le_iff_of_rank hu (rank?_neg_eq hi), not_le]
      exact ⟨fun h => h.2, fun h => ⟨by linarith, h⟩⟩

/-- Bounds that are not crossed stay so when they are cut off, unless one is infinite inward. -/
theorem larger_le_smaller (hguard : ¬ upper < lower)
    (hlower : Scalar.larger lower (-infinity) < infinity)
    (hupper : -infinity < Scalar.smaller upper infinity) :
    Scalar.larger lower (-infinity) ≤ Scalar.smaller upper infinity := by
  obtain ⟨-, -, i, hi, -⟩ := (lt_iff _ _).mp hlower
  have hmax := rank?_larger (x := lower) (rank?_neg_eq hi)
  have hmin := rank?_smaller (x := upper) hi
  rw [lt_iff_of_rank hmax hi] at hlower
  rw [lt_iff_of_rank (rank?_neg_eq hi) hmin] at hupper
  rw [le_iff_of_rank hmax hmin]
  cases hl : rank? lower with
  | none =>
      rw [hl] at hlower
      exact hupper.le
  | some l =>
      rw [hl] at hlower
      cases hu : rank? upper with
      | none => exact hlower.le
      | some u =>
          rw [hu] at hupper
          have hle : l ≤ u := not_lt.mp (mt (lt_iff_of_rank hu hl).mpr hguard)
          simp only [Option.elim_some, max_lt_iff, lt_min_iff] at hlower hupper
          simp only [Option.elim_some, max_le_iff, le_min_iff]
          exact ⟨⟨hlower.1.le, hlower.2.le⟩, hupper.2.le, hle⟩

/-- The bounds that come out are in order just if none of those that were given, which were not
crossed, is infinite inward. -/
theorem wellBounded_bounded_iff (hinfinity : 0 < infinity) (hguard : ¬ upper < lower) :
    (c.bounded infinity lower upper).WellBounded infinity
      ↔ ¬ infinity ≤ lower ∧ ¬ upper ≤ -infinity := by
  rw [← larger_lt_iff hinfinity, ← lt_smaller_iff hinfinity]
  exact ⟨fun h => ⟨h.lower, h.upper⟩, fun ⟨hlower, hupper⟩ =>
    ⟨larger_le_smaller hguard hlower hupper, hlower, hupper⟩⟩

/-- Bounds stay in order when infinity is set anew, just if it is set past the finite ones. -/
theorem wellBounded_moveInfinity_iff (hinfinity : 0 < infinity) (hnew : 0 < new)
    (hc : c.WellBounded infinity) :
    (Engine.moveInfinity infinity new c).WellBounded new
      ↔ (-infinity < c.lower → c.lower < new) ∧ (c.upper < infinity → -new < c.upper) := by
  obtain ⟨i, hi, hipos⟩ := rank?_of_pos hinfinity
  obtain ⟨n, hn, hnpos⟩ := rank?_of_pos hnew
  obtain ⟨l, u, hl, hu⟩ := hc.exists_ranks
  obtain ⟨hle, -, -⟩ := (wellBounded_iff hi hl hu).mp hc
  have hlower : rank? (Engine.moveInfinity infinity new c).lower
      = some (if l ≤ -i then -n else l) := by
    simp only [Engine.moveInfinity, le_iff_of_rank hl (rank?_neg_eq hi)]
    split
    · exact rank?_neg_eq hn
    · exact hl
  have hupper : rank? (Engine.moveInfinity infinity new c).upper
      = some (if i ≤ u then n else u) := by
    simp only [Engine.moveInfinity, le_iff_of_rank hi hu]
    split
    · exact hn
    · exact hu
  rw [wellBounded_iff hn hlower hupper, lt_iff_of_rank (rank?_neg_eq hi) hl, lt_iff_of_rank hl hn,
    lt_iff_of_rank hu hi, lt_iff_of_rank (rank?_neg_eq hn) hu]
  by_cases hl' : l ≤ -i
  · rw [if_pos hl']
    by_cases hu' : i ≤ u
    · rw [if_pos hu']
      exact iff_of_true ⟨by linarith, by linarith, by linarith⟩
        ⟨fun h => absurd h hl'.not_gt, fun h => absurd h hu'.not_gt⟩
    · rw [if_neg hu']
      exact ⟨fun h => ⟨fun h => absurd h hl'.not_gt, fun _ => h.2.2⟩,
        fun h => ⟨(h.2 (not_le.mp hu')).le, by linarith, h.2 (not_le.mp hu')⟩⟩
  · rw [if_neg hl']
    by_cases hu' : i ≤ u
    · rw [if_pos hu']
      exact ⟨fun h => ⟨fun _ => h.2.1, fun h => absurd h hu'.not_gt⟩,
        fun h => ⟨(h.1 (not_le.mp hl')).le, h.1 (not_le.mp hl'), by linarith⟩⟩
    · rw [if_neg hu']
      exact ⟨fun h => ⟨fun _ => h.2.1, fun _ => h.2.2⟩,
        fun h => ⟨hle, h.1 (not_le.mp hl'), h.2 (not_le.mp hu')⟩⟩

/-! ## Free columns -/

omit [Scalar.Ranked α] in
/-- A column becomes two columns of opposite sign just if both of its bounds count as infinite. -/
theorem substitution_free_iff {next : ℕ} :
    (∃ k, c.substitution infinity next = ⟨0, [(k, 1), (k + 1, -1)]⟩) ↔
      Scalar.isInfinite infinity c.lower = true ∧ Scalar.isInfinite infinity c.upper = true := by
  rw [substitution]
  cases Scalar.isInfinite infinity c.lower with
  | false =>
      refine iff_of_false ?_ fun h => Bool.false_ne_true h.1
      rintro ⟨k, hk⟩
      have := congrArg (fun s => s.parts.length) hk
      cases this
  | true =>
      cases Scalar.isInfinite infinity c.upper with
      | false =>
          refine iff_of_false ?_ fun h => Bool.false_ne_true h.2
          rintro ⟨k, hk⟩
          have := congrArg (fun s => s.parts.length) hk
          cases this
      | true => exact iff_of_true ⟨next, rfl⟩ ⟨rfl, rfl⟩

theorem WellBounded.lower_neg (hinfinity : 0 < infinity) (hc : c.WellBounded infinity)
    (h : Scalar.isInfinite infinity c.lower = true) : c.lower < 0 := by
  obtain ⟨i, hi, hpos⟩ := rank?_of_pos hinfinity
  obtain ⟨l, -, hl, -⟩ := hc.exists_ranks
  have hlt := (lt_iff_of_rank hl hi).mp hc.lower
  rw [lt_zero_iff hl]
  rcases isInfinite_iff.mp h with h | h
  · exact absurd hlt ((le_iff_of_rank hi hl).mp h).not_gt
  · linarith [(le_iff_of_rank hl (rank?_neg_eq hi)).mp h]

end Column

/-! ## Engines -/

namespace Engine

/-- Whether infinity is positive and the bounds of every column are in order. -/
structure WellBounded (e : Engine α) : Prop where
  infinity_pos : 0 < e.config.infinity
  columns : ∀ c ∈ e.model.columns, c.WellBounded e.config.infinity

instance (e : Engine α) : Decidable e.WellBounded :=
  decidable_of_iff
    (0 < e.config.infinity ∧ ∀ c ∈ e.model.columns, c.WellBounded e.config.infinity)
    ⟨fun ⟨hpos, h⟩ => ⟨hpos, h⟩, fun h => ⟨h.infinity_pos, h.columns⟩⟩

/-- Whether the columns that become two columns of opposite sign are those said to be free. -/
def FreeAsSaid (e : Engine α) : Prop :=
  ∀ f, e.model.standardForm e.config.infinity = .ok f → ∀ j,
    (∃ k, f.substitutions[j]? = some ⟨0, [(k, 1), (k + 1, -1)]⟩) ↔ e.isUnbounded (j + 1) = true

variable {e e' : Engine α} {column : ℕ} {l : Listing α}

omit [Scalar α] in
theorem column?_succ (e : Engine α) (j : ℕ) : e.column? (j + 1) = e.model.columns[j]? := by
  rw [column?, columnIndex?]
  by_cases hj : j < e.nrColumns
  · rw [if_pos (by omega)]
    rfl
  · rw [if_neg (by omega)]
    exact (List.getElem?_eq_none (not_lt.mp hj)).symm

theorem exists_substitution (infinity : α) (next : ℕ) (cs : List (Column α)) (j : ℕ) :
    ∃ k, (Model.substitutionsFrom infinity next cs)[j]?
      = cs[j]?.map fun c => c.substitution infinity k := by
  induction cs generalizing next j with
  | nil => exact ⟨0, rfl⟩
  | cons c cs ih =>
      cases j with
      | zero => exact ⟨next, rfl⟩
      | succ j => exact ih _ j

theorem WellBounded.freeAsSaid [Scalar.Ranked α] (he : e.WellBounded) : e.FreeAsSaid := by
  intro f hf j
  obtain ⟨next, hnext⟩ := exists_substitution e.config.infinity 0 e.model.columns j
  rw [Solution.substitutions_of_standardForm hf, hnext, isUnbounded, bounds?, column?_succ]
  cases hc : e.model.columns[j]? with
  | none => simp
  | some c =>
      have hbounded := he.columns c (List.mem_of_getElem? hc)
      simp only [Option.map_some, Option.some.injEq, Column.substitution_free_iff, Option.any_some,
        Bool.and_eq_true, decide_eq_true_eq]
      exact ⟨fun h => ⟨⟨h.1, hbounded.lower_neg he.infinity_pos h.1⟩, h.2⟩,
        fun h => ⟨h.1.1, h.2⟩⟩

/-! ## Edits -/

namespace Edit

def bounds? (e : Engine α) : Edit α → Option (α × α)
  | setBounds _ lower upper => some (lower, upper)
  | setLower column lower => (e.bounds? column).map fun b => (lower, b.2)
  | setUpper column upper => (e.bounds? column).map fun b => (b.1, upper)
  | setUnbounded _ => some (-e.config.infinity, e.config.infinity)
  | _ => none

def infinity? : Edit α → Option α
  | setInfinity infinity => some infinity
  | setConfig config => some config.infinity
  | _ => none

/-- Whether an edit asks for no bound that is infinite inward, and sets infinity past the finite
bounds. -/
def Careful (e : Engine α) (edit : Edit α) : Prop :=
  (∀ b ∈ edit.bounds? e, ¬ e.config.infinity ≤ b.1 ∧ ¬ b.2 ≤ -e.config.infinity) ∧
    ∀ new ∈ edit.infinity?, ∀ c ∈ e.model.columns,
      (-e.config.infinity < c.lower → c.lower < new) ∧
        (c.upper < e.config.infinity → -new < c.upper)

instance (e : Engine α) (edit : Edit α) : Decidable (edit.Careful e) :=
  inferInstanceAs (Decidable (_ ∧ _))

end Edit

/-- Every column has bounds that it had before, or is a new nonnegative one. -/
structure KeepsBounds (e e' : Engine α) : Prop where
  infinity : e'.config.infinity = e.config.infinity
  columns : ∀ d ∈ e'.model.columns,
    d = Column.nonnegative e.config.infinity ∨ ∃ c ∈ e.model.columns, d.limits = c.limits

/-- What an accepted edit does to the bounds of the columns. -/
inductive BoundsEffect (e : Engine α) (edit : Edit α) (e' : Engine α) : Prop
  | keeps : edit.bounds? e = none → edit.infinity? = none → KeepsBounds e e' →
      BoundsEffect e edit e'
  | bounds {j : ℕ} {lower upper : α} : edit.bounds? e = some (lower, upper) →
      edit.infinity? = none → ¬ upper < lower → j < e.nrColumns →
      e' = e.withModel { e.model with
        columns := e.model.columns.modify j (Column.bounded e.config.infinity lower upper) } →
      BoundsEffect e edit e'
  | infinity {new : α} : edit.bounds? e = none → edit.infinity? = some new →
      e'.config.infinity = new →
      e'.model.columns = e.model.columns.map (moveInfinity e.config.infinity new) →
      BoundsEffect e edit e'

theorem keepsBounds_of_columns_eq (hconfig : e'.config = e.config)
    (hcolumns : e'.model.columns = e.model.columns) : e.KeepsBounds e' := by
  refine ⟨congrArg Config.infinity hconfig, ?_⟩
  intro d hd
  exact Or.inr ⟨d, hcolumns ▸ hd, rfl⟩

theorem keepsBounds_editRow? {f : Row α → Row α} {row : ℕ} (h : e.editRow? row f = some e') :
    e.KeepsBounds e' := by
  obtain ⟨i, -, -, rfl⟩ := of_editRow? h
  exact keepsBounds_of_columns_eq rfl rfl

theorem keepsBounds_setRightHandSides? {values : List α}
    (h : e.setRightHandSides? values = some e') : e.KeepsBounds e' := by
  rcases of_setRightHandSides? h with ⟨-, rfl⟩ | ⟨-, rows, -, rfl⟩
  · exact keepsBounds_of_columns_eq rfl rfl
  · exact keepsBounds_of_columns_eq rfl rfl

theorem keepsBounds_appendConstraint? {relation : Relation} {b : α}
    (h : e.appendConstraint? l relation b = some e') : e.KeepsBounds e' := by
  obtain ⟨v, -, rfl⟩ := of_appendConstraint? h
  exact keepsBounds_of_columns_eq rfl rfl

theorem keepsBounds_setRow? {row : ℕ} (h : e.setRow? row l = some e') : e.KeepsBounds e' := by
  obtain ⟨-, i, v, -, -, -, rfl⟩ := of_setRow? h
  exact keepsBounds_of_columns_eq rfl rfl

theorem keepsBounds_setObjective? (h : e.setObjective? l = some e') : e.KeepsBounds e' := by
  obtain ⟨v, -, rfl⟩ := of_setObjective? h
  exact keepsBounds_of_columns_eq rfl rfl

theorem keepsBounds_appendColumn? (h : e.appendColumn? l = some e') : e.KeepsBounds e' := by
  obtain ⟨-, cost, values, -, rfl⟩ := of_appendColumn? h
  refine ⟨rfl, ?_⟩
  intro d hd
  rcases List.mem_append.mp hd with hd | hd
  · exact Or.inr ⟨d, hd, rfl⟩
  · exact Or.inl (List.mem_singleton.mp hd)

theorem keepsBounds_setColumn? (h : e.setColumn? column l = some e') : e.KeepsBounds e' := by
  obtain ⟨-, j, cost, values, -, -, -, rfl⟩ := of_setColumn? h
  exact keepsBounds_of_columns_eq rfl rfl

theorem keepsBounds_deleteColumn? (h : e.deleteColumn? column = some e') : e.KeepsBounds e' := by
  obtain ⟨-, j, -, -, rfl⟩ := of_deleteColumn? h
  refine ⟨rfl, ?_⟩
  intro d hd
  exact Or.inr ⟨d, List.mem_of_mem_eraseIdx hd, rfl⟩

theorem keepsBounds_deleteConstraint? {row : ℕ} (h : e.deleteConstraint? row = some e') :
    e.KeepsBounds e' := by
  obtain ⟨-, i, -, -, rfl⟩ := of_deleteConstraint? h
  exact keepsBounds_of_columns_eq rfl rfl

theorem keepsBounds_setElement? {row : ℕ} {x : α} (h : e.setElement? row column x = some e') :
    e.KeepsBounds e' := by
  obtain ⟨-, j, m, -, -, hm, rfl⟩ := of_setElement? h
  cases row with
  | zero =>
      cases hm
      exact keepsBounds_of_columns_eq rfl rfl
  | succ i =>
      obtain ⟨-, rfl⟩ := Model.of_modifyRow? hm
      exact keepsBounds_of_columns_eq rfl rfl

theorem keepsBounds_setRowName? {row : ℕ} {name : String} (h : e.setRowName? row name = some e') :
    e.KeepsBounds e' := by
  obtain ⟨i, -, -, rfl⟩ := of_setRowName? h
  exact keepsBounds_of_columns_eq rfl rfl

theorem keepsBounds_setColumnName? {name : String}
    (h : e.setColumnName? column name = some e') : e.KeepsBounds e' := by
  obtain ⟨j, -, -, rfl⟩ := of_setColumnName? h
  refine ⟨rfl, ?_⟩
  intro d hd
  obtain ⟨k, hk, rfl⟩ := List.mem_iff_getElem.mp hd
  simp only [List.length_modify] at hk
  refine Or.inr ⟨e.model.columns[k], List.getElem_mem _, ?_⟩
  simp only [List.getElem_modify]
  split
  · rfl
  · rfl

theorem keepsBounds_setRowMode? {enabled : Bool} (h : e.setRowMode? enabled = some e') :
    e.KeepsBounds e' := by
  obtain ⟨-, rfl⟩ := of_setRowMode? h
  exact keepsBounds_of_columns_eq rfl rfl

theorem keepsBounds_setSense (e : Engine α) (sense : Sense) :
    e.KeepsBounds (e.setSense sense) := by
  rw [setSense]
  split
  · exact keepsBounds_of_columns_eq rfl rfl
  · exact keepsBounds_of_columns_eq rfl rfl

theorem Edit.ComesTo.bounds?_eq {edit d : Edit α} (h : edit.ComesTo e d) :
    edit.bounds? e = d.bounds? e := by
  induction h with
  | text hspells _ _ ih =>
      refine Eq.trans ?_ ih
      cases hspells <;> rfl
  | setLower lower hbounds => exact congrArg (Option.map _) hbounds
  | setUpper upper hbounds => exact congrArg (Option.map _) hbounds
  | _ => rfl

theorem Edit.ComesTo.infinity?_eq {edit d : Edit α} (h : edit.ComesTo e d) :
    edit.infinity? = d.infinity? := by
  induction h with
  | text hspells _ _ ih =>
      refine Eq.trans ?_ ih
      cases hspells <;> rfl
  | _ => rfl

theorem Edit.ComesTo.boundsEffect {edit d : Edit α} (h : edit.ComesTo e d)
    (heffect : e.BoundsEffect d e') : e.BoundsEffect edit e' := by
  cases heffect with
  | keeps hbounds hinfinity hkeeps =>
      exact .keeps (h.bounds?_eq.trans hbounds) (h.infinity?_eq.trans hinfinity) hkeeps
  | bounds hbounds hinfinity hguard hj heq =>
      exact .bounds (h.bounds?_eq.trans hbounds) (h.infinity?_eq.trans hinfinity) hguard hj heq
  | infinity hbounds hinfinity hnew hcolumns =>
      exact .infinity (h.bounds?_eq.trans hbounds) (h.infinity?_eq.trans hinfinity) hnew hcolumns

/-- What every edit that is accepted does to the bounds of the columns. -/
theorem boundsEffect_result? {edit : Edit α} (h : edit.result? e = some e') :
    e.BoundsEffect edit e' := by
  obtain ⟨d, hcomes, hdirect, h⟩ := Edit.exists_direct h
  refine hcomes.boundsEffect ?_
  cases hdirect with
  | appendConstraint l relation b => exact .keeps rfl rfl (keepsBounds_appendConstraint? h)
  | setRow row l => exact .keeps rfl rfl (keepsBounds_setRow? h)
  | setObjective l => exact .keeps rfl rfl (keepsBounds_setObjective? h)
  | appendColumn l => exact .keeps rfl rfl (keepsBounds_appendColumn? h)
  | setColumn column l => exact .keeps rfl rfl (keepsBounds_setColumn? h)
  | deleteColumn column => exact .keeps rfl rfl (keepsBounds_deleteColumn? h)
  | deleteConstraint row => exact .keeps rfl rfl (keepsBounds_deleteConstraint? h)
  | setElement row column x => exact .keeps rfl rfl (keepsBounds_setElement? h)
  | setRightHandSide row x => exact .keeps rfl rfl (keepsBounds_editRow? h)
  | setRightHandSides values => exact .keeps rfl rfl (keepsBounds_setRightHandSides? h)
  | setRelation row relation => exact .keeps rfl rfl (keepsBounds_editRow? h)
  | setRange row width => exact .keeps rfl rfl (keepsBounds_editRow? h)
  | setBounds column lower upper =>
      obtain ⟨hguard, j, -, hj, rfl⟩ := of_setBounds? h
      exact .bounds rfl rfl hguard hj rfl
  | setRowName row name => exact .keeps rfl rfl (keepsBounds_setRowName? h)
  | setColumnName column name => exact .keeps rfl rfl (keepsBounds_setColumnName? h)
  | setTitle name =>
      cases h
      exact .keeps rfl rfl (keepsBounds_of_columns_eq rfl rfl)
  | setRowMode enabled => exact .keeps rfl rfl (keepsBounds_setRowMode? h)
  | setSense sense =>
      cases h
      exact .keeps rfl rfl (keepsBounds_setSense e sense)
  | setInfinity infinity =>
      cases h
      exact .infinity rfl rfl rfl rfl
  | setConfig config =>
      cases h
      exact .infinity rfl rfl rfl rfl
  | setAbort answer =>
      cases h
      exact .keeps rfl rfl (keepsBounds_of_columns_eq rfl rfl)
  | clearAbort =>
      cases h
      exact .keeps rfl rfl (keepsBounds_of_columns_eq rfl rfl)
  | solve clock =>
      cases h
      refine .keeps rfl rfl (keepsBounds_of_columns_eq (config_solve clock e) ?_)
      rw [model_solve]

/-! ## Every engine -/

/-- Whether all edits that are accepted, one after the other, are careful. -/
def CarefulRun (e : Engine α) : List (Edit α) → Prop
  | [] => True
  | edit :: edits =>
      ((edit.result? e).isSome = true → edit.Careful e) ∧ CarefulRun (e.perform edit).2 edits

instance decidableCarefulRun (e : Engine α) : (edits : List (Edit α)) →
    Decidable (e.CarefulRun edits)
  | [] => inferInstanceAs (Decidable True)
  | edit :: edits =>
      have := decidableCarefulRun (e.perform edit).2 edits
      inferInstanceAs (Decidable (_ ∧ _))

theorem WellBounded.modify_iff (he : e.WellBounded) {j : ℕ} (hj : j < e.model.columns.length)
    (f : Column α → Column α) :
    (e.withModel { e.model with columns := e.model.columns.modify j f }).WellBounded
      ↔ (f e.model.columns[j]).WellBounded e.config.infinity := by
  constructor
  · intro h
    refine h.columns _ (List.mem_of_getElem? (i := j) ?_)
    show (e.model.columns.modify j f)[j]? = _
    rw [List.getElem?_modify_eq, List.getElem?_eq_getElem hj]
    rfl
  · intro h
    refine ⟨he.infinity_pos, ?_⟩
    intro d hd
    obtain ⟨k, hk, rfl⟩ := List.mem_iff_getElem.mp hd
    simp only [withModel, List.getElem_modify]
    split
    · rename_i hjk
      subst hjk
      exact h
    · exact he.columns _ (List.getElem_mem _)

theorem wellBounded_iff_of_map {new : α} {f : Column α → Column α} (hpos : 0 < new)
    (hinfinity : e'.config.infinity = new) (hcolumns : e'.model.columns = e.model.columns.map f) :
    e'.WellBounded ↔ ∀ c ∈ e.model.columns, (f c).WellBounded new := by
  subst hinfinity
  constructor
  · intro h c hc
    refine h.columns _ ?_
    rw [hcolumns]
    exact List.mem_map_of_mem hc
  · intro h
    refine ⟨hpos, ?_⟩
    rw [hcolumns]
    exact List.forall_mem_map.mpr h

section Ranked

variable [Scalar.Ranked α] {edit : Edit α} {edits : List (Edit α)}

theorem WellBounded.keeps (he : e.WellBounded) (h : e.KeepsBounds e') : e'.WellBounded := by
  refine ⟨h.infinity ▸ he.infinity_pos, ?_⟩
  intro d hd
  rw [h.infinity]
  rcases h.columns d hd with rfl | ⟨c, hc, heq⟩
  · exact Column.wellBounded_nonnegative he.infinity_pos
  · exact (he.columns c hc).congr heq

/-- A careful edit keeps the bounds in order, and no other edit does. -/
theorem wellBounded_result?_iff (he : e.WellBounded) (hpos : ∀ new ∈ edit.infinity?, 0 < new)
    (h : edit.result? e = some e') : e'.WellBounded ↔ edit.Careful e := by
  cases boundsEffect_result? h with
  | keeps hbounds hinfinity hkeeps =>
      refine iff_of_true (he.keeps hkeeps) ?_
      rw [Edit.Careful, hbounds, hinfinity]
      exact ⟨nofun, nofun⟩
  | @bounds j lower upper hbounds hinfinity hguard hj heq =>
      have hcareful : edit.Careful e ↔
          ¬ e.config.infinity ≤ lower ∧ ¬ upper ≤ -e.config.infinity := by
        rw [Edit.Careful, hbounds, hinfinity]
        exact ⟨fun h => h.1 _ rfl, fun h => ⟨by rintro _ ⟨⟩; exact h, nofun⟩⟩
      rw [hcareful, heq, he.modify_iff hj, Column.wellBounded_bounded_iff he.infinity_pos hguard]
  | @infinity new hbounds hinfinity hnew hcolumns =>
      have hcareful : edit.Careful e ↔ ∀ c ∈ e.model.columns,
          (-e.config.infinity < c.lower → c.lower < new) ∧
            (c.upper < e.config.infinity → -new < c.upper) := by
        rw [Edit.Careful, hbounds, hinfinity]
        exact ⟨fun h => h.2 _ rfl, fun h => ⟨nofun, by rintro _ ⟨⟩; exact h⟩⟩
      have hnewpos : 0 < new := hpos new hinfinity
      rw [hcareful, wellBounded_iff_of_map hnewpos hnew hcolumns]
      exact forall₂_congr fun c hc =>
        Column.wellBounded_moveInfinity_iff he.infinity_pos hnewpos (he.columns c hc)

theorem wellBounded_perform_iff (he : e.WellBounded) (hpos : ∀ new ∈ edit.infinity?, 0 < new) :
    (e.perform edit).2.WellBounded ↔ ((edit.result? e).isSome = true → edit.Careful e) := by
  cases hresult : edit.result? e with
  | none =>
      rw [perform_of_result?_eq_none hresult]
      exact iff_of_true he fun h => absurd h Bool.false_ne_true
  | some e' =>
      rw [perform_of_result? hresult, wellBounded_result?_iff he hpos hresult]
      exact ⟨fun h _ => h, fun h => h rfl⟩

/-- The bounds are in order all along a run just if its edits are careful. -/
theorem carefulRun_iff (he : e.WellBounded)
    (hpos : ∀ edit ∈ edits, ∀ new ∈ edit.infinity?, 0 < new) :
    e.CarefulRun edits ↔ ∀ k, (e.performAll (edits.take k)).WellBounded := by
  induction edits generalizing e with
  | nil =>
      refine iff_of_true trivial fun k => ?_
      rw [List.take_nil]
      exact he
  | cons edit edits ih =>
      obtain ⟨hedit, hedits⟩ := List.forall_mem_cons.mp hpos
      rw [CarefulRun, ← wellBounded_perform_iff he hedit]
      constructor
      · rintro ⟨hfirst, hrest⟩ k
        cases k with
        | zero => exact he
        | succ k => exact (ih hfirst hedits).mp hrest k
      · intro h
        have hfirst : (e.perform edit).2.WellBounded := h 1
        exact ⟨hfirst, (ih hfirst hedits).mpr fun k => h (k + 1)⟩

theorem wellBounded_create (rows columns : ℕ) (config : Config α) (hpos : 0 < config.infinity) :
    (create rows columns config).WellBounded := by
  refine ⟨hpos, ?_⟩
  intro c hc
  rw [List.eq_of_mem_replicate hc]
  exact Column.wellBounded_nonnegative hpos

/-- On a new engine whose infinity is positive and is only ever set to something positive, whatever
is tried: as long as the edits that are accepted are careful, and no longer, every column has bounds
that are in order and not infinite inward.  So long the columns that are represented by two columns
of opposite sign are those said to be free. -/
theorem bounds_kept_iff_careful (rows columns : ℕ) (config : Config α) (edits : List (Edit α))
    (hinfinity : 0 < config.infinity)
    (hpos : ∀ edit ∈ edits, ∀ new ∈ edit.infinity?, 0 < new) :
    (create rows columns config).CarefulRun edits ↔
      ∀ k, let e := (create rows columns config).performAll (edits.take k)
        e.WellBounded ∧ e.FreeAsSaid := by
  rw [carefulRun_iff (wellBounded_create rows columns config hinfinity) hpos]
  exact ⟨fun h k => ⟨h k, (h k).freeAsSaid⟩, fun h k => (h k).1⟩

end Ranked

/-- Undefined and infinite bounds, then a smaller infinity and a free column. -/
def careful : List (Edit Float) :=
  [.setBounds 1 (0.0 / 0.0) (1.0 / 0.0), .setBounds 2 (-1.0 / 0.0) 5, .setInfinity 1e20,
    .setLower 1 7, .setUnbounded 2]

theorem bounds_kept_iff_careful_float :
    let e : Engine Float := create 1 2 Config.standard
    0 < e.config.infinity ∧ (∀ edit ∈ careful, ∀ new ∈ edit.infinity?, 0 < new) ∧
      e.CarefulRun careful ∧
      ∀ k, (e.performAll (careful.take k)).WellBounded ∧
        (e.performAll (careful.take k)).FreeAsSaid := by
  intro e
  have hinfinity : 0 < e.config.infinity := by decide +kernel
  have hpos : ∀ edit ∈ careful, ∀ new ∈ edit.infinity?, 0 < new := by decide +kernel
  have hcareful : e.CarefulRun careful := by decide +kernel
  exact ⟨hinfinity, hpos, hcareful,
    (bounds_kept_iff_careful 1 2 Config.standard careful hinfinity hpos).mp hcareful⟩

/-- Two bounds past infinity are accepted and come out crossed, and the column, which no number can
be a value of, is represented as a free one without being called so.  A finite bound is crossed
as well when infinity is set below it. -/
theorem bounds_crossed :
    let e : Engine Float := create 0 1 Config.standard
    let far := e.performAll [.setBounds 1 2e30 3e30]
    let near := e.performAll [.setLower 1 5, .setInfinity 3]
    (e.perform (.setBounds 1 2e30 3e30)).1 = true ∧ far.bounds? 1 = some (2e30, 1e30) ∧
      ¬ far.WellBounded ∧ far.isUnbounded 1 = false ∧
      (far.model.standardForm far.config.infinity).toOption.map StandardForm.substitutions
        = some [⟨0, [(0, 1), (1, -1)]⟩] ∧
      near.bounds? 1 = some (5, 3) ∧ ¬ near.WellBounded := by
  decide +kernel

end Engine
end LinProg
