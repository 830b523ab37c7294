/-
How the equations of a standard form are laid out.

The columns of the variables come first and every inequality gets the next
column after them for its slack.  An equation is the limit that it was made
from, multiplied by the sign that makes its right-hand side nonnegative; so
it can be read with the slack beside the other coefficients, and a solution
is the same as values of the variables that every limit allows.
-/
import LinProg.Proofs.Sparse
import LinProg.Proofs.StandardForm.Basic
import LinProg.StandardForm.OfModel

namespace LinProg
namespace Pending

variable {p : Pending ℚ} {ps : List (Pending ℚ)} {first width structural c : ℕ}

/-- The column of the slack of an equation, if it has one. -/
def slackColumn (first : ℕ) (ps : List (Pending ℚ)) (k : ℕ) : ℕ :=
  first + (ps.take k).countP fun p => p.slack.isSome

theorem le_slackColumn {k : ℕ} : first ≤ slackColumn first ps k := Nat.le_add_right _ _

theorem slackColumn_lt {k : ℕ} (hp : ps[k]? = some p) (hs : p.slack.isSome) :
    slackColumn first ps k < first + ps.countP fun p => p.slack.isSome := by
  obtain ⟨hk, rfl⟩ := List.getElem?_eq_some_iff.mp hp
  exact Nat.add_lt_add_left (Dense.countP_take_lt_countP (p := fun p => p.slack.isSome) hk hs) _

theorem slackColumn_inj {i k : ℕ} {q : Pending ℚ} (hp : ps[i]? = some p) (hq : ps[k]? = some q)
    (hps : p.slack.isSome) (hqs : q.slack.isSome)
    (h : slackColumn first ps i = slackColumn first ps k) : i = k := by
  obtain ⟨hi, rfl⟩ := List.getElem?_eq_some_iff.mp hp
  obtain ⟨hk, rfl⟩ := List.getElem?_eq_some_iff.mp hq
  have hcount := Nat.add_left_cancel h
  rcases lt_trichotomy i k with hik | hik | hik
  · exact absurd hcount
      (Dense.countP_take_lt (p := fun p => p.slack.isSome) hi hps hik).ne
  · exact hik
  · exact absurd hcount
      (Dense.countP_take_lt (p := fun p => p.slack.isSome) hk hqs hik).ne'

theorem getElem?_equations (width first : ℕ) (ps : List (Pending ℚ)) (k : ℕ) :
    (equations width first ps)[k]? = ps[k]?.map (equation width (slackColumn first ps k)) := by
  induction ps generalizing first k with
  | nil => rfl
  | cons p ps ih =>
      cases k with
      | zero => rfl
      | succ k =>
          rw [equations, List.getElem?_cons_succ, List.getElem?_cons_succ, ih]
          congr 2
          cases hs : p.slack with
          | none => simp [slackColumn, hs]
          | some s => simp [slackColumn, hs, Nat.add_assoc, Nat.add_comm 1]

theorem length_equations {α : Type} [Scalar α] (width slack : ℕ) (ps : List (Pending α)) :
    (equations width slack ps).length = ps.length := by
  induction ps generalizing slack with
  | nil => rfl
  | cons p ps ih => exact congrArg (· + 1) (ih _)

theorem origin_equation_eq_constraint {α : Type} [Scalar α] {p : Pending α} {width slack i : ℕ}
    {sign : α} (h : (p.equation width slack).origin = .constraint i sign) :
    p.row = some i ∧ sign = if p.value < 0 then -1 else 1 := by
  rw [equation] at h
  cases hrow : p.row with
  | none =>
      rw [hrow] at h
      cases h
  | some k =>
      rw [hrow] at h
      cases h
      exact ⟨rfl, rfl⟩

/-! ## One equation -/

/-- The sign that makes the right-hand side nonnegative. -/
def flip (p : Pending ℚ) : ℚ := if p.value < 0 then -1 else 1

theorem flip_eq (p : Pending ℚ) : p.flip = 1 ∨ p.flip = -1 := by
  rw [flip]
  split
  · exact Or.inr rfl
  · exact Or.inl rfl

theorem flip_mul_flip (p : Pending ℚ) : p.flip * p.flip = 1 := mul_self_eq_one_iff.mpr p.flip_eq

theorem abs_flip (p : Pending ℚ) : |p.flip| = 1 := by
  rcases p.flip_eq with h | h
  · rw [h, abs_one]
  · rw [h, abs_neg, abs_one]

theorem flip_ne_zero (p : Pending ℚ) : p.flip ≠ 0 := by
  intro h
  have hone := p.flip_mul_flip
  rw [h] at hone
  norm_num at hone

theorem value_equation : (p.equation width c).value = p.flip * p.value := rfl

theorem value_equation_nonneg : 0 ≤ (p.equation width c).value := by
  rw [value_equation, flip]
  split
  · rw [neg_one_mul]
    linarith
  · rw [one_mul]
    linarith

/-- What makes a limit fit for a layout: its coefficients belong to variables, and its slack
counts once, up or down. -/
structure Fits (structural : ℕ) (p : Pending ℚ) : Prop where
  within : Sparse.Within structural p.coefficients
  slack : ∀ s, p.slack = some s → s = 1 ∨ s = -1

theorem Fits.slack_mul_slack (hp : p.Fits structural) {s : ℚ} (hs : p.slack = some s) :
    s * s = 1 := by
  rcases hp.slack s hs with rfl | rfl
  · norm_num
  · norm_num

theorem Fits.flip_mul_slack_eq (hp : p.Fits structural) {s : ℚ} (hs : p.slack = some s) :
    p.flip * s = 1 ∨ p.flip * s = -1 := by
  refine mul_self_eq_one_iff.mp ?_
  rw [mul_mul_mul_comm, p.flip_mul_flip, hp.slack_mul_slack hs, one_mul]

theorem Fits.flip_mul_slack (hp : p.Fits structural) {s : ℚ} (hs : p.slack = some s)
    (hpos : 0 < p.flip * s) : p.flip * s = 1 := by
  rcases hp.flip_mul_slack_eq hs with h | h
  · exact h
  · rw [h] at hpos
    norm_num at hpos

/-- The coefficient of a column, with the slack in column `c`. -/
def coefficient (c : ℕ) (p : Pending ℚ) (j : ℕ) : ℚ :=
  Sparse.weight p.coefficients j + if c = j then p.slack.getD 0 else 0

/-- The coefficients of an equation without its slack. -/
def dense (width : ℕ) (p : Pending ℚ) : List ℚ :=
  p.coefficients.foldl (fun d e => d.modify e.1 (· + p.flip * e.2)) (List.replicate width 0)

theorem length_dense : (p.dense width).length = width := by
  rw [dense, Sparse.length_accumulate, List.length_replicate]

theorem getD_dense {j : ℕ} (hj : j < width) :
    (p.dense width).getD j 0 = p.flip * Sparse.weight p.coefficients j := by
  rw [dense, Sparse.getD_accumulate _ _ _ (by rwa [List.length_replicate]),
    List.getD_replicate 0 hj, zero_add, Sparse.weight_scale]

theorem coefficients_equation_of_none (hs : p.slack = none) :
    (p.equation width c).coefficients = p.dense width := by
  simp only [equation, hs]
  rfl

theorem coefficients_equation_of_some {s : ℚ} (hs : p.slack = some s) :
    (p.equation width c).coefficients = (p.dense width).set c (p.flip * s) := by
  simp only [equation, hs]
  rfl

theorem length_equation : (p.equation width c).coefficients.length = width := by
  cases hs : p.slack with
  | none => rw [coefficients_equation_of_none hs, length_dense]
  | some s => rw [coefficients_equation_of_some hs, List.length_set, length_dense]

theorem Fits.weight_eq_zero (hp : p.Fits structural) {j : ℕ} (hj : structural ≤ j) :
    Sparse.weight p.coefficients j = 0 :=
  Sparse.weight_eq_zero fun e he => ((hp.within e he).trans_le hj).ne

theorem getD_equation (hp : p.Fits structural) (hc : structural ≤ c)
    (hs : p.slack.isSome → c < width) {j : ℕ} (hj : j < width) :
    (p.equation width c).coefficients.getD j 0 = p.flip * p.coefficient c j := by
  rw [coefficient]
  cases hslack : p.slack with
  | none =>
      rw [coefficients_equation_of_none hslack, getD_dense hj, Option.getD_none, ite_self,
        add_zero]
  | some s =>
      have hcw : c < (p.dense width).length := (hs (by rw [hslack]; rfl)).trans_eq length_dense.symm
      rw [coefficients_equation_of_some hslack, Dense.getD_set hcw, Option.getD_some]
      by_cases hcj : c = j
      · rw [if_pos hcj, if_pos hcj, hp.weight_eq_zero (hcj ▸ hc), zero_add]
      · rw [if_neg hcj, if_neg hcj, add_zero, getD_dense hj]

theorem dot_equation (hp : p.Fits structural) (hc : structural ≤ c)
    (hs : p.slack.isSome → c < width) {y : List ℚ} (hy : y.length = width) :
    Dense.dot (p.equation width c).coefficients y
      = p.flip * (Sparse.dot p.coefficients y + p.slack.getD 0 * y.getD c 0) := by
  have hslack : ∑ j ∈ Finset.range width, (if c = j then p.slack.getD 0 else 0) * y.getD j 0
      = p.slack.getD 0 * y.getD c 0 := by
    rcases lt_or_ge c width with hcw | hcw
    · rw [Finset.sum_eq_single_of_mem c (Finset.mem_range.mpr hcw), if_pos rfl]
      intro j _ hj
      rw [if_neg (Ne.symm hj), zero_mul]
    · rw [Dense.getD_eq_zero (hy.trans_le hcw), mul_zero]
      refine Finset.sum_eq_zero ?_
      intro j hj
      rw [if_neg ((Finset.mem_range.mp hj).trans_le hcw).ne', zero_mul]
  rw [Dense.dot_eq_sum length_equation.le, Sparse.dot_eq_sum hy.le, ← hslack,
    ← Finset.sum_add_distrib, Finset.mul_sum]
  refine Finset.sum_congr rfl ?_
  intro j hj
  rw [getD_equation hp hc hs (Finset.mem_range.mp hj), coefficient]
  ring

theorem holds_equation_iff (hp : p.Fits structural) (hc : structural ≤ c)
    (hs : p.slack.isSome → c < width) {y : List ℚ} (hy : y.length = width) :
    (p.equation width c).Holds y
      ↔ Sparse.dot p.coefficients y + p.slack.getD 0 * y.getD c 0 = p.value := by
  rw [Equation.Holds, dot_equation hp hc hs hy, value_equation]
  exact mul_right_inj' p.flip_ne_zero

theorem basic_equation {j : ℕ} (h : (p.equation width c).basic = some j) :
    j = c ∧ ∃ s, p.slack = some s ∧ 0 < p.flip * s := by
  obtain ⟨s, hs, hj⟩ := Option.bind_eq_some_iff.mp h
  obtain ⟨hpos, hc⟩ := Option.ite_none_right_eq_some.mp hj
  exact ⟨(Option.some.inj hc).symm, s, hs, hpos⟩

/-- Whether values of the variables keep to a limit. -/
def Allows (p : Pending ℚ) (y : List ℚ) : Prop :=
  match p.slack with
  | none => Sparse.dot p.coefficients y = p.value
  | some s => 0 ≤ s * (p.value - Sparse.dot p.coefficients y)

theorem allows_iff_of_none {y : List ℚ} (hs : p.slack = none) :
    p.Allows y ↔ Sparse.dot p.coefficients y = p.value := by
  rw [Allows, hs]

theorem allows_iff_of_some {y : List ℚ} {s : ℚ} (hs : p.slack = some s) :
    p.Allows y ↔ 0 ≤ s * (p.value - Sparse.dot p.coefficients y) := by
  rw [Allows, hs]

/-- Whether values of the variables keep to a limit up to a tolerance. -/
def AllowsWithin (tolerance : ℚ) (p : Pending ℚ) (y : List ℚ) : Prop :=
  match p.slack with
  | none => |p.value - Sparse.dot p.coefficients y| ≤ tolerance
  | some s => -tolerance ≤ s * (p.value - Sparse.dot p.coefficients y)

theorem allowsWithin_iff_of_none {tolerance : ℚ} {y : List ℚ} (hs : p.slack = none) :
    p.AllowsWithin tolerance y ↔ |p.value - Sparse.dot p.coefficients y| ≤ tolerance := by
  rw [AllowsWithin, hs]

theorem allowsWithin_iff_of_some {tolerance : ℚ} {y : List ℚ} {s : ℚ} (hs : p.slack = some s) :
    p.AllowsWithin tolerance y
      ↔ -tolerance ≤ s * (p.value - Sparse.dot p.coefficients y) := by
  rw [AllowsWithin, hs]

theorem allowsWithin_zero_iff {y : List ℚ} : p.AllowsWithin 0 y ↔ p.Allows y := by
  cases hs : p.slack with
  | none =>
      rw [allowsWithin_iff_of_none hs, allows_iff_of_none hs, abs_nonpos_iff, sub_eq_zero, eq_comm]
  | some s => rw [allowsWithin_iff_of_some hs, allows_iff_of_some hs, neg_zero]

/-- What a limit with a slack leaves over. -/
def left? (u : List ℚ) (p : Pending ℚ) : Option ℚ :=
  p.slack.map fun s => s * (p.value - Sparse.dot p.coefficients u)

theorem isSome_left? {u : List ℚ} : (p.left? u).isSome = p.slack.isSome := Option.isSome_map

theorem left?_nonneg {u : List ℚ} {v : ℚ} (h : p.Allows u) (hv : p.left? u = some v) :
    0 ≤ v := by
  obtain ⟨s, hs, rfl⟩ := Option.map_eq_some_iff.mp hv
  exact (allows_iff_of_some hs).mp h

/-- What is left over stands in the columns of the slacks. -/
theorem getD_slackColumn {u : List ℚ} {ps : List (Pending ℚ)} {k : ℕ} {s : ℚ}
    (hp : ps[k]? = some p) (hs : p.slack = some s) :
    (u ++ ps.filterMap (left? u)).getD (slackColumn u.length ps k) 0
      = s * (p.value - Sparse.dot p.coefficients u) := by
  have hleft : p.left? u = some (s * (p.value - Sparse.dot p.coefficients u)) := by
    rw [left?, hs]
    rfl
  have hplace := Dense.getElem?_filterMap hp hleft
  simp only [isSome_left?] at hplace
  rw [slackColumn, List.getD_append_right _ _ _ _ (Nat.le_add_right _ _),
    Nat.add_sub_cancel_left, List.getD_eq_getElem?_getD, hplace]
  rfl

end Pending

namespace StandardForm

/-- A standard form whose equations are made from limits on its first columns, which are the only
ones that cost something. -/
structure Layout (f : StandardForm ℚ) (structural : ℕ) (ps : List (Pending ℚ)) : Prop where
  fits : ∀ p ∈ ps, p.Fits structural
  width : f.nrColumns = structural + ps.countP fun p => p.slack.isSome
  equations : f.equations = Pending.equations f.nrColumns structural ps
  cost : ∀ j, structural ≤ j → f.cost.getD j 0 = 0

namespace Layout

open Pending

variable {f : StandardForm ℚ} {structural : ℕ} {ps : List (Pending ℚ)}
variable (hf : f.Layout structural ps)
include hf

theorem getElem?_equations (k : ℕ) :
    f.equations[k]? = ps[k]?.map (equation f.nrColumns (slackColumn structural ps k)) := by
  rw [hf.equations, Pending.getElem?_equations]

theorem exists_pending {k : ℕ} {q : Equation ℚ} (hq : f.equations[k]? = some q) :
    ∃ p, ps[k]? = some p ∧ q = p.equation f.nrColumns (slackColumn structural ps k) := by
  rw [hf.getElem?_equations] at hq
  obtain ⟨p, hp, rfl⟩ := Option.map_eq_some_iff.mp hq
  exact ⟨p, hp, rfl⟩

theorem fits_of_getElem? {k : ℕ} {p : Pending ℚ} (hp : ps[k]? = some p) : p.Fits structural :=
  hf.fits p (List.mem_of_getElem? hp)

theorem slackColumn_lt {k : ℕ} {p : Pending ℚ} (hp : ps[k]? = some p) (hs : p.slack.isSome) :
    slackColumn structural ps k < f.nrColumns :=
  hf.width ▸ Pending.slackColumn_lt hp hs

theorem getD_coefficients {k : ℕ} {p : Pending ℚ} (hp : ps[k]? = some p) {j : ℕ}
    (hj : j < f.nrColumns) :
    (p.equation f.nrColumns (slackColumn structural ps k)).coefficients.getD j 0
      = p.flip * p.coefficient (slackColumn structural ps k) j :=
  getD_equation (hf.fits_of_getElem? hp) le_slackColumn (hf.slackColumn_lt hp) hj

/-- An equation has the flipped coefficients of its limit in the columns of the variables. -/
theorem getD_coefficients_of_lt {k : ℕ} {p : Pending ℚ} (hp : ps[k]? = some p) {j : ℕ}
    (hj : j < structural) :
    (p.equation f.nrColumns (slackColumn structural ps k)).coefficients.getD j 0
      = p.flip * Sparse.weight p.coefficients j := by
  have hlt : j < f.nrColumns := hj.trans_le (hf.width ▸ Nat.le_add_right _ _)
  rw [hf.getD_coefficients hp hlt, coefficient, if_neg (hj.trans_le le_slackColumn).ne', add_zero]

/-- In the column of a slack there is nothing but this slack. -/
theorem coefficient_slackColumn {i k : ℕ} {p p' : Pending ℚ} (hp : ps[i]? = some p)
    (hp' : ps[k]? = some p') (hs : p.slack.isSome) :
    p'.coefficient (slackColumn structural ps k) (slackColumn structural ps i)
      = if k = i then p.slack.getD 0 else 0 := by
  rw [coefficient, (hf.fits_of_getElem? hp').weight_eq_zero le_slackColumn, zero_add]
  by_cases hki : k = i
  · subst hki
    rw [if_pos rfl, if_pos rfl, Option.some.inj (hp'.symm.trans hp)]
  · rw [if_neg hki]
    by_cases hcol : slackColumn structural ps k = slackColumn structural ps i
    · cases hslack : p'.slack with
      | none => simp
      | some s => exact absurd (slackColumn_inj hp' hp (by rw [hslack]; rfl) hs hcol) hki
    · exact if_neg hcol

theorem getD_coefficients_slackColumn {i k : ℕ} {p p' : Pending ℚ} {s : ℚ} (hp : ps[i]? = some p)
    (hp' : ps[k]? = some p') (hs : p.slack = some s) :
    (p'.equation f.nrColumns (slackColumn structural ps k)).coefficients.getD
        (slackColumn structural ps i) 0
      = if k = i then p.flip * s else 0 := by
  have hsome : p.slack.isSome := by rw [hs]; rfl
  rw [hf.getD_coefficients hp' (hf.slackColumn_lt hp hsome),
    hf.coefficient_slackColumn hp hp' hsome]
  by_cases hki : k = i
  · subst hki
    obtain rfl := Option.some.inj (hp'.symm.trans hp)
    rw [if_pos rfl, if_pos rfl, hs, Option.getD_some]
  · rw [if_neg hki, if_neg hki, mul_zero]

theorem proper : f.Proper where
  width q hq := by
    obtain ⟨k, hk⟩ := List.getElem?_of_mem hq
    obtain ⟨p, -, rfl⟩ := hf.exists_pending hk
    exact length_equation
  nonneg q hq := by
    obtain ⟨k, hk⟩ := List.getElem?_of_mem hq
    obtain ⟨p, -, rfl⟩ := hf.exists_pending hk
    exact value_equation_nonneg
  basic_lt q hq j hj := by
    obtain ⟨k, hk⟩ := List.getElem?_of_mem hq
    obtain ⟨p, hp, rfl⟩ := hf.exists_pending hk
    obtain ⟨rfl, s, hs, -⟩ := basic_equation hj
    exact hf.slackColumn_lt hp (by rw [hs]; rfl)
  cost_basic q hq j hj := by
    obtain ⟨k, hk⟩ := List.getElem?_of_mem hq
    obtain ⟨p, -, rfl⟩ := hf.exists_pending hk
    obtain ⟨rfl, -⟩ := basic_equation hj
    exact hf.cost _ le_slackColumn
  unit i k q q' hq hq' j hj := by
    obtain ⟨p, hp, rfl⟩ := hf.exists_pending hq
    obtain ⟨p', hp', rfl⟩ := hf.exists_pending hq'
    obtain ⟨rfl, s, hs, hpos⟩ := basic_equation hj
    rw [hf.getD_coefficients_slackColumn hp hp' hs,
      (hf.fits_of_getElem? hp).flip_mul_slack hs hpos]

/-! ## Solutions -/

theorem solves_iff {y : List ℚ} (hy : y.length = f.nrColumns) :
    f.Solves y ↔ (∀ j, 0 ≤ y.getD j 0) ∧ ∀ k p, ps[k]? = some p →
      Sparse.dot p.coefficients y + p.slack.getD 0 * y.getD (slackColumn structural ps k) 0
        = p.value := by
  have hholds : ∀ k p, ps[k]? = some p →
      ((p.equation f.nrColumns (slackColumn structural ps k)).Holds y
        ↔ Sparse.dot p.coefficients y + p.slack.getD 0 * y.getD (slackColumn structural ps k) 0
          = p.value) := fun k p hp =>
    holds_equation_iff (hf.fits_of_getElem? hp) le_slackColumn (hf.slackColumn_lt hp) hy
  constructor
  · intro h
    refine ⟨h.nonneg, fun k p hp => (hholds k p hp).mp (h.holds _ ?_)⟩
    refine List.mem_of_getElem? (i := k) ?_
    rw [hf.getElem?_equations, hp]
    rfl
  · rintro ⟨hnonneg, h⟩
    refine ⟨hy, hnonneg, fun q hq => ?_⟩
    obtain ⟨k, hk⟩ := List.getElem?_of_mem hq
    obtain ⟨p, hp, rfl⟩ := hf.exists_pending hk
    exact (hholds k p hp).mpr (h k p hp)

theorem slack_eq {y : List ℚ} (hy : f.Solves y) {k : ℕ} {p : Pending ℚ} {s : ℚ}
    (hp : ps[k]? = some p) (hs : p.slack = some s) :
    s * (p.value - Sparse.dot p.coefficients y) = y.getD (slackColumn structural ps k) 0 := by
  have heq := ((hf.solves_iff hy.length).mp hy).2 k p hp
  rw [hs, Option.getD_some] at heq
  rw [← heq, add_sub_cancel_left, ← mul_assoc, (hf.fits_of_getElem? hp).slack_mul_slack hs,
    one_mul]

/-- A solution up to a tolerance keeps to every limit up to the tolerance: that much may be missing
from what a limit leaves for its slack. -/
theorem allowsWithin {tolerance : ℚ} {y : List ℚ} (hy : f.SolvesWithin tolerance y)
    {p : Pending ℚ} (hp : p ∈ ps) : p.AllowsWithin tolerance y := by
  obtain ⟨k, hk⟩ := List.getElem?_of_mem hp
  have hfits := hf.fits p hp
  have hclose : |p.value - (Sparse.dot p.coefficients y
      + p.slack.getD 0 * y.getD (slackColumn structural ps k) 0)| ≤ tolerance := by
    have hmem : p.equation f.nrColumns (slackColumn structural ps k) ∈ f.equations := by
      refine List.mem_of_getElem? (i := k) ?_
      rw [hf.getElem?_equations, hk]
      rfl
    have hq := hy.close _ hmem
    rwa [dot_equation hfits le_slackColumn (hf.slackColumn_lt hk) hy.length, value_equation,
      ← mul_sub, abs_mul, p.abs_flip, one_mul] at hq
  cases hs : p.slack with
  | none =>
      rw [hs, Option.getD_none, zero_mul, add_zero] at hclose
      exact (allowsWithin_iff_of_none hs).mpr hclose
  | some s =>
      rw [hs, Option.getD_some] at hclose
      obtain ⟨hlower, hupper⟩ := abs_le.mp hclose
      have hslack := hy.nonneg (slackColumn structural ps k)
      rw [allowsWithin_iff_of_some hs]
      rcases hfits.slack s hs with rfl | rfl
      · linarith
      · linarith

theorem allows {y : List ℚ} (hy : f.Solves y) {p : Pending ℚ} (hp : p ∈ ps) : p.Allows y :=
  allowsWithin_zero_iff.mp (hf.allowsWithin hy.within hp)

/-- Nonnegative values of the variables that keep to every limit make a solution, with what the
limits leave as slacks. -/
theorem exists_solves {u : List ℚ} (hu : u.length = structural) (hnonneg : ∀ v ∈ u, 0 ≤ v)
    (h : ∀ p ∈ ps, p.Allows u) : ∃ w, f.Solves (u ++ w) := by
  have hlen : (u ++ ps.filterMap (left? u)).length = f.nrColumns := by
    rw [List.length_append, List.length_filterMap_eq_countP, hu, hf.width]
    simp only [isSome_left?]
  refine ⟨ps.filterMap (left? u), (hf.solves_iff hlen).mpr ⟨Dense.getD_nonneg ?_, ?_⟩⟩
  · intro v hv
    rcases List.mem_append.mp hv with hv | hv
    · exact hnonneg v hv
    · obtain ⟨p, hp, hleft⟩ := List.mem_filterMap.mp hv
      exact left?_nonneg (h p hp) hleft
  · intro k p hp
    have hfits := hf.fits_of_getElem? hp
    have hdot : Sparse.dot p.coefficients (u ++ ps.filterMap (left? u))
        = Sparse.dot p.coefficients u := by
      refine Sparse.dot_congr ?_
      intro e he
      exact List.getD_append _ _ _ _ ((hfits.within e he).trans_eq hu.symm)
    rw [hdot]
    cases hs : p.slack with
    | none =>
        rw [Option.getD_none, zero_mul, add_zero]
        exact (allows_iff_of_none hs).mp (h p (List.mem_of_getElem? hp))
    | some s =>
        rw [← hu, getD_slackColumn hp hs, Option.getD_some, ← mul_assoc, hfits.slack_mul_slack hs]
        ring

end Layout

end StandardForm
end LinProg
