/-
What the duals of a standard form say about the rows and the variables of
its model.

The price of a row is the sum of the prices of its limits, the marginal
cost of a variable what its cost exceeds the worth of its coefficients by,
both for minimisation.  The relative cost of a column is the marginal cost
of its variable, up to the sign with which the column counts and less the
price of its bound row.  So the signs of prices and marginal costs tell at
which of their limits the rows and variables of an optimal solution are.
-/
import LinProg.Proofs.StandardForm.Prices

namespace LinProg

/-! ## Variables at their bounds -/

namespace Column

variable {infinity : ℚ} {c : Column ℚ} {next k : ℕ} {d sign offset : ℚ} {y : List ℚ}
variable {s : Substitution ℚ} {bound? : Option (Pending ℚ)}

/-- Whether the columns of a variable are where its marginal cost `d` drives them: at zero where
they cost something, and at the upper bound of the variable where they pay. -/
def Driven (d : ℚ) (y : List ℚ) (s : Substitution ℚ) (bound? : Option (Pending ℚ)) : Prop :=
  ∀ (k : ℕ) (sign : ℚ), (k, sign) ∈ s.parts →
    (0 < sign * d → y.getD k 0 = 0) ∧
      (sign * d < 0 → ∃ p, bound? = some p ∧ p.value = Sparse.dot p.coefficients y)

theorem Driven.value_eq_offset (h : Driven d y ⟨offset, [(k, sign)]⟩ bound?)
    (hpos : 0 < sign * d) : Substitution.value ⟨offset, [(k, sign)]⟩ y = offset := by
  rw [Substitution.value_single, (h k sign (List.mem_singleton.mpr rfl)).1 hpos, mul_zero,
    add_zero]

/-- Without a bound row no column pays. -/
theorem Driven.not_neg (h : Driven d y s none) (hk : (k, sign) ∈ s.parts) : ¬ sign * d < 0 := by
  intro hneg
  obtain ⟨p, hp, -⟩ := (h k sign hk).2 hneg
  cases hp

/-- A variable is at the finite bound to which its marginal cost drives it. -/
theorem Driven.bound (h : Driven d y s bound?) (hshape : c.Shape infinity next s bound?) :
    (0 < d → c.limits.finiteLower? infinity = some (s.value y)) ∧
      (d < 0 → c.limits.finiteUpper? infinity = some (s.value y)) := by
  rw [Limits.finiteLower?_eq_some, Limits.finiteUpper?_eq_some]
  cases hshape with
  | boxed hl hu =>
      constructor
      · intro hd
        rw [h.value_eq_offset (by linarith)]
        exact ⟨rfl, hl⟩
      · intro hd
        obtain ⟨p, hp, hvalue⟩ := (h next 1 (List.mem_singleton.mpr rfl)).2 (by linarith)
        obtain rfl := Option.some.inj hp
        rw [Column.boundRow, Sparse.dot_singleton, one_mul] at hvalue
        rw [Substitution.value_single, one_mul, ← hvalue, add_sub_cancel]
        exact ⟨rfl, hu⟩
  | shifted hl hu =>
      constructor
      · intro hd
        rw [h.value_eq_offset (by linarith)]
        exact ⟨rfl, hl⟩
      · intro hd
        exact absurd (by linarith) (h.not_neg (List.mem_singleton.mpr rfl))
  | mirrored hl hu =>
      constructor
      · intro hd
        exact absurd (by linarith) (h.not_neg (List.mem_singleton.mpr rfl))
      · intro hd
        rw [h.value_eq_offset (by linarith)]
        exact ⟨rfl, hu⟩
  | free hl hu =>
      constructor
      · intro hd
        exact absurd (by linarith) (h.not_neg (List.mem_pair.mpr (Or.inr rfl)))
      · intro hd
        exact absurd (by linarith) (h.not_neg (List.mem_pair.mpr (Or.inl rfl)))

end Column

namespace Model

open Pending

variable {infinity : ℚ} {m : Model ℚ} {c : Column ℚ} {j k : ℕ} {sign : ℚ}
variable {priced : List (Pending ℚ × ℚ)}

/-! ## Columns of a variable -/

theorem eq_of_mem_parts {c' : Column ℚ} {i : ℕ} {sign' : ℚ} (hc : m.columns[j]? = some c)
    (hk : (k, sign) ∈ (c.substitution infinity (place infinity 0 m.columns j)).parts)
    (hc' : m.columns[i]? = some c')
    (hk' : (k, sign') ∈ (c'.substitution infinity (place infinity 0 m.columns i)).parts) :
    i = j := by
  obtain ⟨hle, hlt⟩ := Column.mem_parts hk
  obtain ⟨hle', hlt'⟩ := Column.mem_parts hk'
  rcases lt_trichotomy i j with hij | hij | hij
  · have hsep := place_add_width_le infinity 0 hc' hij
    omega
  · exact hij
  · have hsep := place_add_width_le infinity 0 hc hij
    omega

theorem weight_parts_self {next : ℕ} (hk : (k, sign) ∈ (c.substitution infinity next).parts) :
    Sparse.weight (c.substitution infinity next).parts k = sign := by
  have hshape := c.shape infinity next
  generalize c.substitution infinity next = s at hk hshape ⊢
  generalize c.boundRow? infinity next = b at hshape
  cases hshape with
  | boxed | shifted | mirrored =>
      obtain ⟨rfl, rfl⟩ := Prod.mk.inj (List.mem_singleton.mp hk)
      simp
  | free =>
      rcases List.mem_pair.mp hk with h | h
      · obtain ⟨rfl, rfl⟩ := Prod.mk.inj h
        simp
      · obtain ⟨rfl, rfl⟩ := Prod.mk.inj h
        simp

theorem weight_parts (hc : m.columns[j]? = some c)
    (hk : (k, sign) ∈ (c.substitution infinity (place infinity 0 m.columns j)).parts) (i : ℕ) :
    Sparse.weight ((m.substitutions infinity).getD i ⟨0, []⟩).parts k
      = if i = j then sign else 0 := by
  rw [List.getD_eq_getElem?_getD, getElem?_substitutions]
  by_cases hij : i = j
  · subst hij
    rw [hc, if_pos rfl]
    exact weight_parts_self hk
  · rw [if_neg hij]
    cases hi : m.columns[i]? with
    | none => rfl
    | some c' =>
        refine Sparse.weight_eq_zero fun e he hek => hij ?_
        subst hek
        exact eq_of_mem_parts hc hk hi he

theorem weight_substitute (hc : m.columns[j]? = some c)
    (hk : (k, sign) ∈ (c.substitution infinity (place infinity 0 m.columns j)).parts)
    (v : Sparse ℚ) :
    (v.substitute (m.substitutions infinity)).weight k = sign * v.weight j := by
  induction v with
  | nil => simp [Sparse.substitute]
  | cons e v ih =>
      rw [Sparse.substitute_cons, Sparse.weight_append, Sparse.scale_right, Sparse.weight_scale,
        weight_parts hc hk, ih, Sparse.weight_cons]
      by_cases he : e.1 = j
      · rw [if_pos he, if_pos he]
        ring
      · rw [if_neg he, if_neg he]
        ring

/-! ## Prices -/

def rowPrice (priced : List (Pending ℚ × ℚ)) (i : ℕ) : ℚ :=
  (priced.map fun e => if e.1.row = some i then e.2 else 0).sum

/-- The price of the upper bounds of a column. -/
def boundPrice (priced : List (Pending ℚ × ℚ)) (k : ℕ) : ℚ :=
  (priced.map fun e =>
    if e.1.row = none then e.2 * Sparse.weight e.1.coefficients k else 0).sum

def coefficients (m : Model ℚ) (i : ℕ) : Sparse ℚ := (m.rows[i]?.map Row.coefficients).getD []

/-- The marginal cost of a variable, for minimisation. -/
def marginalCost (m : Model ℚ) (priced : List (Pending ℚ × ℚ)) (j : ℕ) : ℚ :=
  m.sense.sign * m.cost.weight j
    - ∑ i ∈ Finset.range m.nrRows, rowPrice priced i * (m.coefficients i).weight j

/-- What the limits are worth in a column, by rows. -/
theorem sum_priced (h : ∀ e ∈ priced, e.1 ∈ m.pending infinity) (k : ℕ) :
    (priced.map fun e => e.2 * Sparse.weight e.1.coefficients k).sum
      = boundPrice priced k + ∑ i ∈ Finset.range m.nrRows, rowPrice priced i
          * ((m.coefficients i).substitute (m.substitutions infinity)).weight k := by
  induction priced with
  | nil => simp [boundPrice, rowPrice]
  | cons e priced ih =>
      have hrec := ih fun e he => h e (List.mem_cons_of_mem _ he)
      rw [List.map_cons, List.sum_cons, hrec]
      simp only [boundPrice, rowPrice, List.map_cons, List.sum_cons, add_mul,
        Finset.sum_add_distrib]
      rcases mem_pending (h e List.mem_cons_self) with ⟨hnone, -⟩ | ⟨i, r, hr, hrow, hp⟩
      · simp [hnone, add_assoc]
      · have hi : i < m.nrRows := (List.getElem?_eq_some_iff.mp hr).1
        have hcoefficients : e.1.coefficients
            = (m.coefficients i).substitute (m.substitutions infinity) := by
          rw [coefficients, hr, (Row.of_mem_pending hp).1]
          rfl
        simp [hrow, hcoefficients, hi, add_left_comm]

/-- The relative cost of a column of a variable. -/
theorem reducedCost_part (hc : m.columns[j]? = some c)
    (hk : (k, sign) ∈ (c.substitution infinity (place infinity 0 m.columns j)).parts)
    (duals : List ℚ) :
    (m.converted infinity).reducedCost duals k
      = sign * m.marginalCost (Pending.priced (m.pending infinity) duals) j
        - boundPrice (Pending.priced (m.pending infinity) duals) k := by
  have hks : k < m.structural infinity :=
    (Column.mem_parts hk).2.trans_le (place_add_width_le_structural hc)
  have hcost : (m.converted infinity).cost.getD k 0
      = m.sense.sign * (m.cost.substitute (m.substitutions infinity)).weight k :=
    getD_substitutedCost (hks.trans_le (Nat.le_add_right _ _))
  rw [(layout_converted infinity m).reducedCost_structural hks, hcost,
    sum_priced fun e he => fst_mem_of_mem_priced he]
  simp only [weight_substitute hc hk]
  rw [marginalCost, mul_sub, Finset.mul_sum]
  have hswap : ∀ i ∈ Finset.range m.nrRows,
      rowPrice (Pending.priced (m.pending infinity) duals) i
          * (sign * (m.coefficients i).weight j)
        = sign * (rowPrice (Pending.priced (m.pending infinity) duals) i
          * (m.coefficients i).weight j) := fun i _ => by ring
  rw [Finset.sum_congr rfl hswap]
  ring

theorem exists_priced_of_rowPrice_pos {i : ℕ} (h : 0 < rowPrice priced i) :
    ∃ e ∈ priced, e.1.row = some i ∧ 0 < e.2 := by
  obtain ⟨e, he, hlt⟩ := List.exists_lt_of_sum_lt (fun _ => (0 : ℚ))
    (fun e : Pending ℚ × ℚ => if e.1.row = some i then e.2 else 0) (by simpa [rowPrice] using h)
  by_cases hrow : e.1.row = some i
  · rw [if_pos hrow] at hlt
    exact ⟨e, he, hrow, hlt⟩
  · rw [if_neg hrow] at hlt
    exact absurd hlt (lt_irrefl 0)

theorem exists_priced_of_rowPrice_neg {i : ℕ} (h : rowPrice priced i < 0) :
    ∃ e ∈ priced, e.1.row = some i ∧ e.2 < 0 := by
  obtain ⟨e, he, hlt⟩ := List.exists_lt_of_sum_lt
    (fun e : Pending ℚ × ℚ => if e.1.row = some i then e.2 else 0) (fun _ => (0 : ℚ))
    (by simpa [rowPrice] using h)
  by_cases hrow : e.1.row = some i
  · rw [if_pos hrow] at hlt
    exact ⟨e, he, hrow, hlt⟩
  · rw [if_neg hrow] at hlt
    exact absurd hlt (lt_irrefl 0)

/-! ## Optimal solutions -/

section Optimal

variable {b : BasicSolution ℚ} (hb : (m.converted infinity).Optimal b)
include hb

theorem boundPrice_nonpos (k : ℕ) :
    boundPrice (Pending.priced (m.pending infinity) b.duals) k ≤ 0 := by
  have hterm : ∀ e ∈ Pending.priced (m.pending infinity) b.duals,
      (if e.1.row = none then e.2 * Sparse.weight e.1.coefficients k else 0) ≤ 0 := by
    intro e he
    rcases mem_pending (fst_mem_of_mem_priced he) with ⟨hnone, i, c, -, hbound⟩ |
      ⟨i, r, -, hrow, -⟩
    · obtain ⟨hrow, -⟩ := Column.boundRow?_eq_some hbound
      have hle := ((layout_converted infinity m).complementary hb he).1 1 (by rw [hrow]; rfl)
      rw [if_pos hnone, hrow]
      refine mul_nonpos_of_nonpos_of_nonneg (by linarith) ?_
      rw [Column.boundRow, Sparse.weight_cons, Sparse.weight_nil, add_zero]
      split
      · exact zero_le_one
      · exact le_rfl
    · rw [if_neg (by simp [hrow])]
  simpa [boundPrice] using List.sum_le_sum hterm

/-- Where the upper bound of a column of a variable is worth something, it is the bound row of the
variable and leaves nothing over. -/
theorem exists_boundRow_of_boundPrice_neg (hc : m.columns[j]? = some c)
    (hk : (k, sign) ∈ (c.substitution infinity (place infinity 0 m.columns j)).parts)
    (hneg : boundPrice (Pending.priced (m.pending infinity) b.duals) k < 0) :
    ∃ p, c.boundRow? infinity (place infinity 0 m.columns j) = some p ∧
      p.value = Sparse.dot p.coefficients b.values := by
  obtain ⟨e, he, hlt⟩ := List.exists_lt_of_sum_lt
    (fun e : Pending ℚ × ℚ =>
      if e.1.row = none then e.2 * Sparse.weight e.1.coefficients k else 0)
    (fun _ => 0) (by simpa [boundPrice] using hneg)
  obtain ⟨-, hzero⟩ := (layout_converted infinity m).complementary hb he
  rcases mem_pending (fst_mem_of_mem_priced he) with ⟨hnone, i, c', hc', hbound⟩ |
    ⟨i, r, -, hrow, -⟩
  · rw [if_pos hnone] at hlt
    obtain ⟨hrow, hpart⟩ := Column.boundRow?_eq_some hbound
    have hplace : place infinity 0 m.columns i = k := by
      by_contra hne
      rw [hrow, Column.boundRow, Sparse.weight_cons, Sparse.weight_nil, if_neg hne] at hlt
      simp at hlt
    have hk' : (k, (1 : ℚ)) ∈
        (c'.substitution infinity (place infinity 0 m.columns i)).parts := by
      rw [← hplace]
      exact hpart
    obtain rfl : i = j := eq_of_mem_parts hc hk hc' hk'
    obtain rfl := Option.some.inj (hc'.symm.trans hc)
    refine ⟨e.1, hbound, sub_eq_zero.mp ((mul_eq_zero.mp hzero).resolve_left ?_)⟩
    exact left_ne_zero_of_mul hlt.ne
  · rw [if_neg (by simp [hrow])] at hlt
    exact absurd hlt (lt_irrefl 0)

theorem driven_marginalCost (hc : m.columns[j]? = some c) :
    Column.Driven (m.marginalCost (Pending.priced (m.pending infinity) b.duals) j) b.values
      (c.substitution infinity (place infinity 0 m.columns j))
      (c.boundRow? infinity (place infinity 0 m.columns j)) := by
  intro k sign hk
  have hkn : k < (m.converted infinity).nrColumns := by
    rw [nrColumns_converted]
    exact ((Column.mem_parts hk).2.trans_le (place_add_width_le_structural hc)).trans_le
      (Nat.le_add_right _ _)
  have hnonneg := hb.reducedCost_nonneg k hkn
  have hzero := hb.complementary k hkn
  have hbound := boundPrice_nonpos hb k
  rw [reducedCost_part hc hk b.duals] at hnonneg hzero
  constructor
  · intro hpos
    exact (mul_eq_zero.mp hzero).resolve_left (by linarith)
  · intro hneg
    exact exists_boundRow_of_boundPrice_neg hb hc hk (by linarith)

/-- A variable with a positive marginal cost is at its finite lower bound, one with a negative
marginal cost at its finite upper bound. -/
theorem bound_of_marginalCost (hc : m.columns[j]? = some c) :
    (0 < m.marginalCost (Pending.priced (m.pending infinity) b.duals) j →
        c.limits.finiteLower? infinity
          = some (((m.converted infinity).point b.values).getD j 0)) ∧
      (m.marginalCost (Pending.priced (m.pending infinity) b.duals) j < 0 →
        c.limits.finiteUpper? infinity
          = some (((m.converted infinity).point b.values).getD j 0)) := by
  rw [getD_point hc]
  exact (driven_marginalCost hb hc).bound (c.shape infinity _)

/-- A limit of a row with a price leaves nothing over, and the sign of the price tells which limit
it is. -/
theorem limit_of_price (hmeet : ∀ r ∈ m.rows, r.limits.Meetable infinity) (hclosed : m.Closed)
    {i : ℕ} {r : Row ℚ} (hr : m.rows[i]? = some r) {e : Pending ℚ × ℚ}
    (he : e ∈ Pending.priced (m.pending infinity) b.duals) (hrow : e.1.row = some i) :
    (0 < e.2 → r.limits.finiteLower? infinity
        = some (r.coefficients.dot ((m.converted infinity).point b.values))) ∧
      (e.2 < 0 → r.limits.finiteUpper? infinity
        = some (r.coefficients.dot ((m.converted infinity).point b.values))) := by
  have hwithin : r.coefficients.Within (m.substitutions infinity).length :=
    length_substitutions (m := m) ▸ hclosed.rows r (List.mem_of_getElem? hr)
  obtain ⟨hsign, hzero⟩ := (layout_converted infinity m).complementary hb he
  rcases mem_pending (fst_mem_of_mem_priced he) with ⟨hnone, -⟩ | ⟨k, r', hr', hrow', hp⟩
  · rw [hnone] at hrow
    cases hrow
  · obtain rfl : k = i := Option.some.inj (hrow'.symm.trans hrow)
    obtain rfl := Option.some.inj (hr'.symm.trans hr)
    obtain ⟨limit, slack, hlimit, hlower, hupper⟩ :=
      Row.limit_of_mem_pending (hmeet _ (List.mem_of_getElem? hr)) hp
    have hslack : e.1.slack = slack := by rw [hlimit]; rfl
    rw [hlimit, Row.left_limitRow hwithin] at hzero
    have htight : e.2 ≠ 0 → limit = r'.coefficients.dot ((m.converted infinity).point b.values) :=
      fun hne => sub_eq_zero.mp ((mul_eq_zero.mp hzero).resolve_left hne)
    constructor
    · intro hpos
      rw [← htight hpos.ne']
      refine hlower ?_
      rintro rfl
      linarith [hsign 1 hslack]
    · intro hneg
      rw [← htight hneg.ne]
      refine hupper ?_
      rintro rfl
      linarith [hsign (-1) hslack]

/-- A row with a positive price is at its finite lower limit, one with a negative price at its
finite upper limit. -/
theorem limit_of_rowPrice (hmeet : ∀ r ∈ m.rows, r.limits.Meetable infinity) (hclosed : m.Closed)
    {i : ℕ} {r : Row ℚ} (hr : m.rows[i]? = some r) :
    (0 < rowPrice (Pending.priced (m.pending infinity) b.duals) i →
        r.limits.finiteLower? infinity
          = some (r.coefficients.dot ((m.converted infinity).point b.values))) ∧
      (rowPrice (Pending.priced (m.pending infinity) b.duals) i < 0 →
        r.limits.finiteUpper? infinity
          = some (r.coefficients.dot ((m.converted infinity).point b.values))) := by
  constructor
  · intro hpos
    obtain ⟨e, he, hrow, hpos⟩ := exists_priced_of_rowPrice_pos hpos
    exact (limit_of_price hb hmeet hclosed hr he hrow).1 hpos
  · intro hneg
    obtain ⟨e, he, hrow, hneg⟩ := exists_priced_of_rowPrice_neg hneg
    exact (limit_of_price hb hmeet hclosed hr he hrow).2 hneg

end Optimal

end Model
end LinProg
