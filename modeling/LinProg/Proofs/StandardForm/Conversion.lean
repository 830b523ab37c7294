/-
The standard form of a model states the same problem.

Solutions of the standard form give points of the model through the
substitutions; every point comes from a solution, whose columns split the
values of the variables and whose slacks are what the limits leave; and the
cost changes by a constant only.
-/
import LinProg.Proofs.StandardForm.Rows

namespace LinProg

variable {infinity : ℚ} {subs : List (Substitution ℚ)}

/-- The values of the variables of the model for given values of the columns. -/
def StandardForm.point {α : Type} [Scalar α] (f : StandardForm α) (y : List α) : List α :=
  f.substitutions.map fun s => s.value y

namespace Model

variable {m : Model ℚ} {f : StandardForm ℚ} {index : ℕ}

/-- The equations to be of the rows from index `index` on. -/
def pendingFrom (infinity : ℚ) (subs : List (Substitution ℚ)) (index : ℕ) :
    List (Row ℚ) → List (Pending ℚ)
  | [] => []
  | r :: rows => r.pending infinity subs index ++ pendingFrom infinity subs (index + 1) rows

theorem mem_pendingFrom {p : Pending ℚ} {rows : List (Row ℚ)} :
    p ∈ pendingFrom infinity subs index rows
      ↔ ∃ (i : ℕ) (r : Row ℚ), rows[i]? = some r ∧
          p ∈ r.pending infinity subs (index + i) := by
  induction rows generalizing index with
  | nil => simp [pendingFrom]
  | cons r rows ih =>
      rw [pendingFrom, List.mem_append, ih]
      constructor
      · rintro (h | ⟨i, q, hq, h⟩)
        · exact ⟨0, r, rfl, h⟩
        · exact ⟨i + 1, q, hq, by rwa [← Nat.add_assoc, Nat.add_right_comm]⟩
      · rintro ⟨i, q, hq, h⟩
        cases i with
        | zero =>
            obtain rfl : r = q := by simpa using hq
            exact Or.inl h
        | succ i => exact Or.inr ⟨i, q, hq, by rwa [Nat.add_right_comm, Nat.add_assoc]⟩

theorem rowsFrom?_spec (infinity : ℚ) (subs : List (Substitution ℚ)) (index : ℕ)
    (rows : List (Row ℚ)) :
    match rowsFrom? infinity subs index rows with
    | .ok ps =>
        (∀ r ∈ rows, r.coefficients.Within subs.length ∧
          r.limits.unmeetable infinity = false) ∧ ps = pendingFrom infinity subs index rows
    | .error (.unmeetable _) => ∃ r ∈ rows, r.limits.unmeetable infinity = true
    | .error (.strayColumn _) => ∃ r ∈ rows, ¬ r.coefficients.Within subs.length := by
  induction rows generalizing index with
  | nil => exact ⟨nofun, rfl⟩
  | cons r rows ih =>
      specialize ih (index + 1)
      have hrow := r.pending?_spec infinity subs index
      rw [rowsFrom?]
      cases hfirst : r.pending? infinity subs index with
      | error o =>
          rw [hfirst] at hrow
          cases o with
          | unmeetable k => exact ⟨r, List.mem_cons_self, hrow⟩
          | strayColumn k => exact ⟨r, List.mem_cons_self, hrow⟩
      | ok qs =>
          rw [hfirst] at hrow
          obtain ⟨hwithin, hmeet, rfl⟩ := hrow
          cases hrest : rowsFrom? infinity subs (index + 1) rows with
          | ok ps =>
              rw [hrest] at ih
              exact ⟨List.forall_mem_cons.mpr ⟨⟨hwithin, hmeet⟩, ih.1⟩, congrArg _ ih.2⟩
          | error o =>
              rw [hrest] at ih
              cases o with
              | unmeetable k =>
                  obtain ⟨q, hq, h⟩ := ih
                  exact ⟨q, List.mem_cons_of_mem _ hq, h⟩
              | strayColumn k =>
                  obtain ⟨q, hq, h⟩ := ih
                  exact ⟨q, List.mem_cons_of_mem _ hq, h⟩

def structural (infinity : ℚ) (m : Model ℚ) : ℕ := place infinity 0 m.columns m.columns.length

def substitutions (infinity : ℚ) (m : Model ℚ) : List (Substitution ℚ) :=
  substitutionsFrom infinity 0 m.columns

theorem substitutions_eq :
    m.substitutions infinity = substitutionsFrom infinity 0 m.columns := rfl

/-- All equations to be, those of the bounds first. -/
def pending (infinity : ℚ) (m : Model ℚ) : List (Pending ℚ) :=
  boundRowsFrom infinity 0 m.columns ++ pendingFrom infinity (m.substitutions infinity) 0 m.rows

/-- A limit is the upper bound of a variable or belongs to a row. -/
theorem mem_pending {p : Pending ℚ} (hp : p ∈ m.pending infinity) :
    (p.row = none ∧ ∃ (j : ℕ) (c : Column ℚ), m.columns[j]? = some c ∧
        c.boundRow? infinity (place infinity 0 m.columns j) = some p) ∨
      ∃ (i : ℕ) (r : Row ℚ), m.rows[i]? = some r ∧ p.row = some i ∧
        p ∈ r.pending infinity (m.substitutions infinity) i := by
  rcases List.mem_append.mp hp with hp | hp
  · obtain ⟨j, c, hc, hb⟩ := mem_boundRowsFrom.mp hp
    obtain ⟨rfl, -⟩ := Column.boundRow?_eq_some hb
    exact Or.inl ⟨rfl, j, c, hc, hb⟩
  · obtain ⟨i, r, hr, hp⟩ := mem_pendingFrom.mp hp
    rw [Nat.zero_add] at hp
    exact Or.inr ⟨i, r, hr, (Row.of_mem_pending hp).2, hp⟩

theorem length_substitutions : (m.substitutions infinity).length = m.columns.length :=
  length_substitutionsFrom 0 m.columns

theorem getElem?_substitutions (j : ℕ) :
    (m.substitutions infinity)[j]?
      = m.columns[j]?.map fun c => c.substitution infinity (place infinity 0 m.columns j) :=
  getElem?_substitutionsFrom 0 m.columns j

theorem place_add_width_le_structural {j : ℕ} {c : Column ℚ} (hc : m.columns[j]? = some c) :
    place infinity 0 m.columns j + c.width infinity ≤ m.structural infinity :=
  place_add_width_le infinity 0 hc (List.getElem?_eq_some_iff.mp hc).1

theorem within_parts :
    ∀ s ∈ m.substitutions infinity, Sparse.Within (m.structural infinity) s.parts := by
  intro s hs e he
  obtain ⟨j, hj⟩ := List.getElem?_of_mem hs
  rw [getElem?_substitutions] at hj
  obtain ⟨c, hc, rfl⟩ := Option.map_eq_some_iff.mp hj
  exact (Column.mem_parts he).2.trans_le (place_add_width_le_structural hc)

theorem fits_pending : ∀ p ∈ m.pending infinity, p.Fits (m.structural infinity) := by
  intro p hp
  rcases List.mem_append.mp hp with hp | hp
  · obtain ⟨j, c, hc, hb⟩ := mem_boundRowsFrom.mp hp
    obtain ⟨rfl, hpart⟩ := Column.boundRow?_eq_some hb
    refine ⟨fun e he => ?_, fun s hs => Or.inl (Option.some.inj hs).symm⟩
    obtain rfl := List.mem_singleton.mp he
    exact (Column.mem_parts hpart).2.trans_le (place_add_width_le_structural hc)
  · obtain ⟨i, r, -, hp⟩ := mem_pendingFrom.mp hp
    have hwithin : Sparse.Within (m.structural infinity)
        (r.substituted (m.substitutions infinity)) :=
      Sparse.within_substitute within_parts r.coefficients
    rcases Row.mem_pending.mp hp with ⟨b, -, rfl⟩ | ⟨-, a, -, rfl⟩ | ⟨-, b, -, rfl⟩
    · exact ⟨hwithin, nofun⟩
    · exact ⟨hwithin, fun s hs => Or.inr (Option.some.inj hs).symm⟩
    · exact ⟨hwithin, fun s hs => Or.inl (Option.some.inj hs).symm⟩

/-! ## The cost -/

theorem substitutedCost_eq (subs : List (Substitution ℚ)) (width : ℕ) (m : Model ℚ) :
    m.substitutedCost subs width
      = (m.cost.substitute subs).foldl (fun d e => d.modify e.1 (· + m.sense.sign * e.2))
          (List.replicate width 0) := by
  rw [Sparse.substitute, List.foldl_flatMap, substitutedCost]
  simp only [List.foldl_map, mul_assoc]

theorem length_substitutedCost {α : Type} [Scalar α] (subs : List (Substitution α)) (width : ℕ)
    (m : Model α) : (m.substitutedCost subs width).length = width := by
  rw [substitutedCost, Dense.length_foldl, List.length_replicate]
  intro d e
  exact Dense.length_foldl (fun _ _ => List.length_modify _ _ _) _ d

theorem getD_substitutedCost {width j : ℕ} (hj : j < width) :
    (m.substitutedCost subs width).getD j 0
      = m.sense.sign * (m.cost.substitute subs).weight j := by
  rw [substitutedCost_eq, Sparse.getD_accumulate _ _ _ (by rwa [List.length_replicate]),
    List.getD_replicate 0 hj, zero_add, Sparse.weight_scale]

/-! ## The standard form -/

/-- The standard form of a model whose rows can be met. -/
def converted (infinity : ℚ) (m : Model ℚ) : StandardForm ℚ :=
  let width := m.structural infinity + (m.pending infinity).countP fun p => p.slack.isSome
  { equations := Pending.equations width (m.structural infinity) (m.pending infinity)
    cost := m.substitutedCost (m.substitutions infinity) width
    substitutions := m.substitutions infinity }

/-- What a model becomes, or what stands in its way. -/
theorem standardForm_cases (infinity : ℚ) (m : Model ℚ) :
    match m.standardForm infinity with
    | .ok f =>
        m.Closed ∧ (∀ r ∈ m.rows, r.limits.unmeetable infinity = false) ∧
          f = m.converted infinity
    | .error (.unmeetable _) => ∃ r ∈ m.rows, r.limits.unmeetable infinity = true
    | .error (.strayColumn _) => ¬ m.Closed := by
  have hlen : (m.substitutions infinity).length = m.columns.length := length_substitutions
  have hrows := rowsFrom?_spec infinity (m.substitutions infinity) 0 m.rows
  rw [hlen] at hrows
  rw [standardForm, ← substitutions_eq]
  cases hok : rowsFrom? infinity (m.substitutions infinity) 0 m.rows with
  | error e =>
      rw [hok] at hrows
      cases e with
      | unmeetable k => exact hrows
      | strayColumn k =>
          obtain ⟨r, hr, hstray⟩ := hrows
          intro h
          exact hstray (h.rows r hr)
  | ok rows =>
      rw [hok] at hrows
      obtain ⟨hrows, rfl⟩ := hrows
      simp only
      cases hfind : m.cost.find? fun e => (m.substitutions infinity).length ≤ e.1 with
      | some e =>
          intro h
          rw [Sparse.find?_stray_eq_none.mpr (hlen ▸ h.cost)] at hfind
          cases hfind
      | none =>
          have hstructural : (m.substitutions infinity).foldr (fun s n => s.parts.length + n) 0
              = m.structural infinity :=
            (Nat.zero_add _).symm.trans (foldr_length_parts 0 m.columns)
          refine ⟨⟨hlen ▸ Sparse.find?_stray_eq_none.mp hfind, fun r hr => (hrows r hr).1⟩,
            fun r hr => (hrows r hr).2, ?_⟩
          simp only [hstructural]
          rfl

theorem standardForm_eq_ok (h : m.standardForm infinity = .ok f) :
    m.Closed ∧ (∀ r ∈ m.rows, r.limits.unmeetable infinity = false) ∧
      f = m.converted infinity := by
  have hcases := standardForm_cases infinity m
  rw [h] at hcases
  exact hcases

theorem standardForm_ne_strayColumn (hclosed : m.Closed) (j : ℕ) :
    m.standardForm infinity ≠ .error (.strayColumn j) := by
  intro hj
  have hcases := standardForm_cases infinity m
  rw [hj] at hcases
  exact hcases hclosed

/-- A row that cannot be met is the only other obstacle. -/
theorem standardForm_eq_unmeetable_iff (hclosed : m.Closed) :
    (∃ i, m.standardForm infinity = .error (.unmeetable i)) ↔
      ∃ r ∈ m.rows, r.limits.unmeetable infinity = true := by
  have hcases := standardForm_cases infinity m
  constructor
  · rintro ⟨i, hi⟩
    rw [hi] at hcases
    exact hcases
  · rintro ⟨r, hr, hunmeetable⟩
    cases hresult : m.standardForm infinity with
    | ok f =>
        rw [hresult] at hcases
        rw [hcases.2.1 r hr] at hunmeetable
        cases hunmeetable
    | error o =>
        cases o with
        | unmeetable i => exact ⟨i, rfl⟩
        | strayColumn j => exact absurd hresult (standardForm_ne_strayColumn hclosed j)

theorem not_feasible_of_unmeetable (hI : 0 < infinity) {i : ℕ}
    (h : m.standardForm infinity = .error (.unmeetable i)) (x : List ℚ) :
    ¬ m.Feasible infinity x := by
  intro hx
  have hcases := standardForm_cases infinity m
  rw [h] at hcases
  obtain ⟨r, hr, hunmeetable⟩ := hcases
  exact (Limits.unmeetable_iff hI).mp hunmeetable (hx.meetable_rows r hr)

theorem nrColumns_converted :
    (m.converted infinity).nrColumns
      = m.structural infinity + (m.pending infinity).countP fun p => p.slack.isSome :=
  length_substitutedCost _ _ _

theorem layout_converted (infinity : ℚ) (m : Model ℚ) :
    (m.converted infinity).Layout (m.structural infinity) (m.pending infinity) where
  fits := fits_pending
  width := nrColumns_converted
  equations := by
    rw [nrColumns_converted]
    rfl
  cost j hj := by
    rcases lt_or_ge j (m.converted infinity).nrColumns with hjn | hjn
    · have hwithin : Sparse.Within (m.structural infinity)
          (m.cost.substitute (m.substitutions infinity)) :=
        Sparse.within_substitute within_parts m.cost
      have hzero : (m.cost.substitute (m.substitutions infinity)).weight j = 0 :=
        Sparse.weight_eq_zero fun e he => ((hwithin e he).trans_le hj).ne
      rw [nrColumns_converted] at hjn
      rw [converted, getD_substitutedCost hjn, hzero, mul_zero]
    · exact Dense.getD_eq_zero hjn

/-- The simplex method is made for the standard forms of models. -/
theorem proper_of_standardForm (h : m.standardForm infinity = .ok f) : f.Proper := by
  obtain ⟨-, -, rfl⟩ := standardForm_eq_ok h
  exact (layout_converted infinity m).proper

theorem meetable_of_standardForm (hI : 0 < infinity) (h : m.standardForm infinity = .ok f) :
    ∀ r ∈ m.rows, r.limits.Meetable infinity := fun r hr =>
  (Limits.unmeetable_eq_false_iff hI).mp ((standardForm_eq_ok h).2.1 r hr)

/-! ## Points and solutions -/

theorem length_point (y : List ℚ) : ((m.converted infinity).point y).length = m.nrColumns := by
  rw [StandardForm.point, List.length_map]
  exact length_substitutions

theorem getD_point {j : ℕ} {c : Column ℚ} (hc : m.columns[j]? = some c) (y : List ℚ) :
    ((m.converted infinity).point y).getD j 0
      = (c.substitution infinity (place infinity 0 m.columns j)).value y := by
  rw [StandardForm.point, List.getD_eq_getElem?_getD, List.getElem?_map]
  simp only [converted]
  rw [getElem?_substitutions, hc]
  rfl

/-- The equations of the rows allow just the columns for which the rows keep to their finite
limits. -/
theorem allows_pendingFrom_iff (hclosed : m.Closed)
    (hmeet : ∀ r ∈ m.rows, r.limits.Meetable infinity) (y : List ℚ) :
    (∀ p ∈ pendingFrom infinity (m.substitutions infinity) 0 m.rows, p.Allows y)
      ↔ ∀ r ∈ m.rows, r.limits.Respects infinity
          (r.coefficients.dot ((m.converted infinity).point y)) := by
  have hrow : ∀ (i : ℕ), ∀ r ∈ m.rows,
      ((∀ p ∈ r.pending infinity (m.substitutions infinity) (0 + i), p.Allows y)
        ↔ r.limits.Respects infinity (r.coefficients.dot ((m.converted infinity).point y))) :=
    fun i r hr => Row.allows_pending_iff
      (length_substitutions (m := m) ▸ hclosed.rows r hr) (hmeet r hr)
  constructor
  · intro h r hr
    obtain ⟨i, hi⟩ := List.getElem?_of_mem hr
    exact (hrow i r hr).mp fun p hp => h p (mem_pendingFrom.mpr ⟨i, r, hi, hp⟩)
  · intro h p hp
    obtain ⟨i, r, hi, hp⟩ := mem_pendingFrom.mp hp
    have hr := List.mem_of_getElem? hi
    exact (hrow i r hr).mpr (h r hr) p hp

/-- A solution of the standard form gives a point that keeps to the finite limits of the model. -/
theorem respects_point (hI : 0 < infinity) (h : m.standardForm infinity = .ok f) {y : List ℚ}
    (hy : f.Solves y) : m.Respects infinity (f.point y) := by
  have hmeet := meetable_of_standardForm hI h
  obtain ⟨hclosed, -, rfl⟩ := standardForm_eq_ok h
  have hallows : ∀ p ∈ m.pending infinity, p.Allows y :=
    fun p hp => (layout_converted infinity m).allows hy hp
  refine ⟨length_point y, ?_, ?_⟩
  · intro j c hc
    rw [getD_point hc]
    refine Column.respects_value hy.nonneg fun p hp => hallows p ?_
    exact List.mem_append_left _ (mem_boundRowsFrom.mpr ⟨j, c, hc, hp⟩)
  · refine (allows_pendingFrom_iff hclosed hmeet y).mp fun p hp => hallows p ?_
    exact List.mem_append_right _ hp

/-- A solution up to a tolerance gives a point that keeps to the finite limits of the model up to
the tolerance. -/
theorem respectsWithin_point {tolerance : ℚ} (htolerance : 0 ≤ tolerance)
    (h : m.standardForm infinity = .ok f) {y : List ℚ} (hy : f.SolvesWithin tolerance y) :
    (∀ (j : ℕ) (c : Column ℚ), m.columns[j]? = some c →
        c.limits.RespectsWithin tolerance infinity ((f.point y).getD j 0)) ∧
      ∀ r ∈ m.rows, r.limits.RespectsWithin tolerance infinity
        (r.coefficients.dot (f.point y)) := by
  obtain ⟨hclosed, -, rfl⟩ := standardForm_eq_ok h
  have hallows : ∀ p ∈ m.pending infinity, p.AllowsWithin tolerance y :=
    fun p hp => (layout_converted infinity m).allowsWithin hy hp
  constructor
  · intro j c hc
    rw [getD_point hc]
    refine Column.respectsWithin_value htolerance hy.nonneg fun p hp => hallows p ?_
    exact List.mem_append_left _ (mem_boundRowsFrom.mpr ⟨j, c, hc, hp⟩)
  · intro r hr
    obtain ⟨i, hi⟩ := List.getElem?_of_mem hr
    have hwithin : r.coefficients.Within (m.substitutions infinity).length :=
      length_substitutions (m := m) ▸ hclosed.rows r hr
    have hrow : ∀ p ∈ r.pending infinity (m.substitutions infinity) (0 + i),
        p.AllowsWithin tolerance y := fun p hp =>
      hallows p (List.mem_append_right _ (mem_pendingFrom.mpr ⟨i, r, hi, hp⟩))
    exact Row.respectsWithin_dot hwithin hrow

/-- The columns into which the values of the variables are split give these values and keep to the
bound rows, whatever stands after them. -/
theorem point_splitAll {x : List ℚ} (hx : m.Respects infinity x) (w : List ℚ) :
    (m.converted infinity).point (splitAll infinity m.columns x ++ w) = x ∧
      ∀ p ∈ boundRowsFrom infinity 0 m.columns,
        p.Allows (splitAll infinity m.columns x ++ w) := by
  have hsplit : ∀ (j : ℕ) (c : Column ℚ), m.columns[j]? = some c →
      (c.substitution infinity (place infinity 0 m.columns j)).value
          (splitAll infinity m.columns x ++ w) = x.getD j 0 ∧
        ∀ p ∈ c.boundRow? infinity (place infinity 0 m.columns j),
          p.Allows (splitAll infinity m.columns x ++ w) := by
    intro j c hc
    refine Column.value_split (hx.columns j c hc) ?_
    intro i hi
    have hlt : place infinity 0 m.columns j + i < (splitAll infinity m.columns x).length := by
      rw [length_splitAll hx.length]
      exact (Nat.add_lt_add_left hi _).trans_le (place_add_width_le_structural hc)
    rw [List.getD_append _ _ _ _ hlt, getD_splitAll hx.length hc hi]
  refine ⟨Dense.ext_getD ((length_point _).trans hx.length.symm) ?_, ?_⟩
  · intro j hj
    rw [length_point] at hj
    have hc := List.getElem?_eq_getElem hj
    rw [getD_point hc, (hsplit j _ hc).1]
  · intro p hp
    obtain ⟨j, c, hc, hp⟩ := mem_boundRowsFrom.mp hp
    exact (hsplit j c hc).2 p hp

/-- Every point that keeps to the finite limits of the model is given by a solution of the standard
form. -/
theorem exists_solves_of_respects (hI : 0 < infinity) (h : m.standardForm infinity = .ok f)
    {x : List ℚ} (hx : m.Respects infinity x) : ∃ y, f.Solves y ∧ f.point y = x := by
  have hmeet := meetable_of_standardForm hI h
  obtain ⟨hclosed, -, rfl⟩ := standardForm_eq_ok h
  obtain ⟨hpoint, hbounds⟩ := point_splitAll hx []
  rw [List.append_nil] at hpoint hbounds
  have hallows : ∀ p ∈ m.pending infinity, p.Allows (splitAll infinity m.columns x) := by
    intro p hp
    rcases List.mem_append.mp hp with hp | hp
    · exact hbounds p hp
    · refine (allows_pendingFrom_iff hclosed hmeet _).mpr (fun r hr => ?_) p hp
      rw [hpoint]
      exact hx.rows r hr
  obtain ⟨w, hw⟩ := (layout_converted infinity m).exists_solves (length_splitAll hx.length)
    (splitAll_nonneg hx.columns) hallows
  exact ⟨_, hw, (point_splitAll hx w).1⟩

/-- The cost of a point is that of the columns, in the sense of the model and up to a constant. -/
theorem cost_point (h : m.standardForm infinity = .ok f) (y : List ℚ) :
    m.sense.sign * m.cost.dot (f.point y)
      = f.value y + m.sense.sign * m.cost.shift f.substitutions := by
  obtain ⟨hclosed, -, rfl⟩ := standardForm_eq_ok h
  have hwithin : m.cost.Within (m.substitutions infinity).length :=
    length_substitutions (m := m) ▸ hclosed.cost
  have hcolumns : Sparse.Within (m.structural infinity)
      (m.cost.substitute (m.substitutions infinity)) := Sparse.within_substitute within_parts m.cost
  have hvalue : (m.converted infinity).value y
      = m.sense.sign * (m.cost.substitute (m.substitutions infinity)).dot y := by
    rw [StandardForm.value_eq_sum _ nrColumns_converted.le,
      Sparse.dot_eq_sum_of_within fun e he => (hcolumns e he).trans_le (Nat.le_add_right _ _),
      Finset.mul_sum]
    refine Finset.sum_congr rfl ?_
    intro j hj
    rw [converted, getD_substitutedCost (Finset.mem_range.mp hj), mul_assoc]
  rw [hvalue, StandardForm.point]
  simp only [converted]
  rw [Sparse.dot_point hwithin]
  ring

theorem value?_of_solves (h : m.standardForm infinity = .ok f) {y : List ℚ} (hy : f.Solves y) :
    ∀ s ∈ f.substitutions, s.value? y = some (s.value y) := by
  obtain ⟨-, -, rfl⟩ := standardForm_eq_ok h
  intro s hs
  refine if_pos ?_
  intro e he
  rw [hy.length, nrColumns_converted]
  exact (within_parts s hs e he).trans_le (Nat.le_add_right _ _)

/-- The conversion to standard form preserves the problem.  It fails just for the models with a row
that is limited by infinity from the wrong side, which have no points.  Otherwise the solutions of
the standard form are, through the substitutions, the points that keep to the finite bounds and
limits, and the costs differ by a constant in the sense of the model. -/
theorem standardForm_equivalent (hI : 0 < infinity) (hclosed : m.Closed) :
    (∀ j, m.standardForm infinity ≠ .error (.strayColumn j)) ∧
      ((∃ i, m.standardForm infinity = .error (.unmeetable i)) ↔
        ∃ r ∈ m.rows, (∃ a, r.limits.lower = some a ∧ infinity ≤ a) ∨
          ∃ b, r.limits.upper = some b ∧ b ≤ -infinity) ∧
      ((∃ i, m.standardForm infinity = .error (.unmeetable i)) →
        ∀ x, ¬ m.Feasible infinity x) ∧
      ∀ f, m.standardForm infinity = .ok f →
        (∀ y, f.Solves y → (∀ s ∈ f.substitutions, s.value? y = some (s.value y)) ∧
          m.Respects infinity (f.point y)) ∧
        (∀ x, m.Respects infinity x → ∃ y, f.Solves y ∧ f.point y = x) ∧
        ∃ K, ∀ y, m.sense.sign * m.cost.dot (f.point y) = f.value y + K := by
  simp only [← Limits.not_meetable_iff, ← Limits.unmeetable_iff hI]
  refine ⟨standardForm_ne_strayColumn hclosed, standardForm_eq_unmeetable_iff hclosed, ?_, ?_⟩
  · rintro ⟨i, hi⟩
    exact not_feasible_of_unmeetable hI hi
  · intro f hf
    exact ⟨fun y hy => ⟨value?_of_solves hf hy, respects_point hI hf hy⟩,
      fun x hx => exists_solves_of_respects hI hf hx, _, cost_point hf⟩

theorem standardForm_equivalent_mixed :
    (0 : ℚ) < 100 ∧ mixed.Closed ∧ mixed.standardForm 100 = .ok (mixed.converted 100) ∧
      ∀ x, mixed.Respects 100 x →
        ∃ y, (mixed.converted 100).Solves y ∧ (mixed.converted 100).point y = x := by
  have hI : (0 : ℚ) < 100 := by norm_num
  have hok : mixed.standardForm 100 = .ok (mixed.converted 100) := by decide +kernel
  exact ⟨hI, closed_mixed, hok, ((standardForm_equivalent hI closed_mixed).2.2.2 _ hok).2.1⟩

end Model
end LinProg
