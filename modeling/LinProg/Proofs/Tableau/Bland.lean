/-
A descent never returns to a basis.

Suppose that it does.  The objective has not fallen, so every move in
between was degenerate and no value changed.  Among the columns that
entered take the last one, `q`, and compare the tableau in which it enters
with one in which it leaves to make room for some `s < q`.  The relative
costs of the two differ by a vector of the row space, and written out in
the second basis this difference at `s` is positive.  So some basic column
`v` has a positive relative cost in the first tableau and a positive entry
under `s` in the second.  It comes before `q`, its value is zero, and so
it had to be preferred to `q` when a column was chosen to leave.

There are only `nrColumns ^ nrRows` ways to choose a basic column for each
row, and this bounds the number of moves.
-/
import LinProg.Proofs.Tableau.Descent

namespace LinProg
namespace Tableau

/-- `T 0, …, T n` follow each other in a descent. -/
structure Run (T : ℕ → Tableau ℚ) (n : ℕ) : Prop where
  start : (T 0).Ready
  step : ∀ k < n, Step (T k) (T (k + 1))

/-- A predicate that holds earlier and not later stops holding at some step between. -/
theorem exists_drop {P : ℕ → Prop} {k l : ℕ} (hkl : k ≤ l) (hk : P k) (hl : ¬ P l) :
    ∃ i, k ≤ i ∧ i < l ∧ P i ∧ ¬ P (i + 1) := by
  induction l, hkl using Nat.le_induction with
  | base => exact absurd hk hl
  | succ l hkl ih =>
      by_cases hPl : P l
      · exact ⟨l, hkl, Nat.lt_succ_self l, hPl, hl⟩
      · obtain ⟨i, hki, hil, hi⟩ := ih hPl
        exact ⟨i, hki, Nat.lt_succ_of_lt hil, hi⟩

/-- A predicate that comes back to where it was, and both holds and fails in between, stops
holding at some step. -/
theorem exists_drop_of_cycle {P : ℕ → Prop} {n k l : ℕ} (hn : P n → P 0) (hkn : k ≤ n)
    (hln : l ≤ n) (hk : P k) (hl : ¬ P l) : ∃ i < n, P i ∧ ¬ P (i + 1) := by
  rcases le_total k l with hkl | hlk
  · obtain ⟨i, -, hil, hi⟩ := exists_drop hkl hk hl
    exact ⟨i, hil.trans_le hln, hi⟩
  · by_cases hPn : P n
    · obtain ⟨i, -, hil, hi⟩ := exists_drop (Nat.zero_le l) (hn hPn) hl
      exact ⟨i, hil.trans_le hln, hi⟩
    · obtain ⟨i, -, hin, hi⟩ := exists_drop hkn hk hPn
      exact ⟨i, hin, hi⟩

/-- No column before the entering one has a negative relative cost. -/
theorem Ready.costRow_nonneg_of_lt {t : Tableau ℚ} (ht : t.Ready) {c r j : ℕ}
    (h : t.Chosen c r) (hj : j < c) : 0 ≤ t.costRow j := by
  rcases h.first j hj with hbasic | hnonneg
  · obtain ⟨i, hi, rfl⟩ := (ht.inBasis_iff j).mp hbasic
    exact (ht.reduced i hi).ge
  · exact hnonneg

/-- Where relative costs, expressed in another basis, come out higher at a column, some basic
column is the reason. -/
theorem Ready.exists_pos_of_cost_lt {t : Tableau ℚ} (ht : t.Ready) {costs : ℕ → ℚ} {s : ℕ}
    (hmem : costs - t.costRow ∈ t.rowSpace) (hs : t.costRow s < costs s) :
    ∃ k < t.nrRows, 0 < costs (t.basis k) * t.row k s := by
  have hexpand := ht.expand hmem s
  have hreduced : ∀ k ∈ Finset.range t.nrRows,
      (costs - t.costRow) (t.basis k) * t.row k s = costs (t.basis k) * t.row k s := by
    intro k hk
    simp [ht.reduced k (Finset.mem_range.mp hk)]
  rw [Finset.sum_congr rfl hreduced, Pi.sub_apply] at hexpand
  by_contra hnone
  push Not at hnone
  have hsum := Finset.sum_nonpos fun k hk => hnone k (Finset.mem_range.mp hk)
  linarith

namespace Run

variable {T : ℕ → Tableau ℚ} {n : ℕ}

variable (hT : Run T n)
include hT

theorem ready {k : ℕ} (hk : k ≤ n) : (T k).Ready := by
  induction k with
  | zero => exact hT.start
  | succ k ih => exact (hT.step k hk).ready (ih (Nat.le_of_succ_le hk))

theorem segment {k l : ℕ} (hkl : k ≤ l) (hl : l ≤ n) : Run (fun i => T (k + i)) (l - k) where
  start := hT.ready (hkl.trans hl)
  step i hi := hT.step (k + i) (by omega)

theorem follows {k : ℕ} (hk : k ≤ n) : Follows (T 0) (T k) := by
  induction k with
  | zero => exact Follows.refl _
  | succ k ih =>
      have hk' := Nat.le_of_succ_le hk
      exact (ih hk').trans ((hT.step k hk).follows (hT.ready hk'))

theorem cases {k : ℕ} (hk : k < n) : ∃ c r, (T k).Chosen c r ∧ T (k + 1) = (T k).pivot c r :=
  (hT.step k hk).cases (hT.ready hk.le)

theorem objective_le {k l : ℕ} (hkl : k ≤ l) (hl : l ≤ n) :
    (T l).objective ≤ (T k).objective := by
  induction l, hkl using Nat.le_induction with
  | base => exact le_rfl
  | succ l hkl ih =>
      obtain ⟨c, r, hch, hpivot⟩ := hT.cases hl
      rw [hpivot]
      exact ((hT.ready (Nat.le_of_succ_le hl)).objective_pivot_le hch).trans
        (ih (Nat.le_of_succ_le hl))

/-- Within a run the columns that enter and the columns that leave are seen at the marks. -/
theorem enters {k j : ℕ} (hk : k < n) (h0 : (T k).isInBasis j = false)
    (h1 : (T (k + 1)).isInBasis j = true) :
    ∃ r, (T k).Chosen j r ∧ T (k + 1) = (T k).pivot j r := by
  obtain ⟨c, r, hch, hpivot⟩ := hT.cases hk
  have hready := hT.ready hk.le
  rw [hpivot, isInBasis_pivot (hch.lt_enterable.trans_le hready.enterable_le)
    (hready.basis_lt hch.lt_nrRows), h0] at h1
  have hcj : c = j := by
    by_contra hne
    simp [hne] at h1
  subst hcj
  exact ⟨r, hch, hpivot⟩

theorem leaves {k j : ℕ} (hk : k < n) (h0 : (T k).isInBasis j = true)
    (h1 : (T (k + 1)).isInBasis j = false) :
    ∃ c r, (T k).Chosen c r ∧ T (k + 1) = (T k).pivot c r ∧ (T k).basis r = j := by
  obtain ⟨c, r, hch, hpivot⟩ := hT.cases hk
  have hready := hT.ready hk.le
  rw [hpivot, isInBasis_pivot (hch.lt_enterable.trans_le hready.enterable_le)
    (hready.basis_lt hch.lt_nrRows), h0] at h1
  refine ⟨c, r, hch, hpivot, ?_⟩
  by_contra hne
  simp [hne] at h1

end Run

/-! ## No run ends in the basis in which it began -/

/-- A run that comes back to its first basis. -/
structure Cycle (T : ℕ → Tableau ℚ) (n : ℕ) : Prop extends Run T n where
  pos : 0 < n
  returns : ∀ i < (T 0).nrRows, (T n).basis i = (T 0).basis i

namespace Cycle

variable {T : ℕ → Tableau ℚ} {n : ℕ} (hT : Cycle T n)
include hT

/-- The relative costs are determined by the basis, so the objective is what it was. -/
theorem objective_eq {k : ℕ} (hk : k ≤ n) : (T k).objective = (T 0).objective := by
  have hrun := hT.toRun
  have hf := hrun.follows le_rfl
  have hzero : (T n).costRow - (T 0).costRow = 0 := by
    refine hrun.start.eq_zero_of_basis hf.costs ?_
    intro i hi
    have hi' : i < (T n).nrRows := by
      rw [hf.nrRows]
      exact hi
    have hn := (hrun.ready le_rfl).reduced i hi'
    rw [hT.returns i hi] at hn
    simp [hn, hrun.start.reduced i hi]
  have hends : (T n).objective = (T 0).objective := by
    rw [Tableau.objective_eq, Tableau.objective_eq, hf.nrColumns, sub_eq_zero.mp hzero]
  refine le_antisymm (hrun.objective_le (Nat.zero_le k) hk) ?_
  rw [← hends]
  exact hrun.objective_le hk le_rfl

theorem degenerate {k c r : ℕ} (hk : k < n) (hch : (T k).Chosen c r)
    (hpivot : T (k + 1) = (T k).pivot c r) : (T k).row r (T k).nrColumns = 0 := by
  refine (hT.toRun.ready hk.le).degenerate_of_objective_eq hch ?_
  rw [← hpivot, hT.objective_eq hk, hT.objective_eq hk.le]

theorem value_eq {k : ℕ} (hk : k ≤ n) (i : ℕ) :
    (T k).row i (T k).nrColumns = (T 0).row i (T 0).nrColumns := by
  induction k with
  | zero => rfl
  | succ k ih =>
      have hk' := Nat.le_of_succ_le hk
      obtain ⟨c, r, hch, hpivot⟩ := hT.toRun.cases hk
      rw [← ih hk', hpivot, nrColumns_pivot]
      exact value_pivot_of_degenerate (hT.toRun.ready hk').toRectangular hch.lt_nrRows
        hch.entry_pos.ne' (hT.degenerate hk hch hpivot) i

theorem basis_eq {k i : ℕ} (hk : k ≤ n) (hi : i < (T 0).nrRows)
    (h0 : (T 0).row i (T 0).nrColumns ≠ 0) : (T k).basis i = (T 0).basis i := by
  induction k with
  | zero => rfl
  | succ k ih =>
      have hk' := Nat.le_of_succ_le hk
      obtain ⟨c, r, hch, hpivot⟩ := hT.toRun.cases hk
      have hi' : i < (T k).nrRows := by
        rw [(hT.toRun.follows hk').nrRows]
        exact hi
      have hir : i ≠ r := by
        rintro rfl
        rw [← hT.value_eq hk' i, hT.degenerate hk hch hpivot] at h0
        exact h0 rfl
      rw [← ih hk', hpivot, basis_pivot hi', if_neg hir]

theorem isInBasis_iff (j : ℕ) : (T n).isInBasis j = true ↔ (T 0).isInBasis j = true := by
  have hrows := (hT.toRun.follows le_rfl).nrRows
  rw [(hT.toRun.ready le_rfl).inBasis_iff, hT.toRun.start.inBasis_iff, hrows]
  constructor
  · rintro ⟨i, hi, rfl⟩
    exact ⟨i, hi, (hT.returns i hi).symm⟩
  · rintro ⟨i, hi, rfl⟩
    exact ⟨i, hi, hT.returns i hi⟩

/-- A column that is basic at one time of the cycle and not at another enters at some time. -/
theorem exists_enters {j k l : ℕ} (hk : k ≤ n) (hl : l ≤ n)
    (h1 : (T k).isInBasis j = true) (h0 : (T l).isInBasis j = false) :
    ∃ i < n, ∃ r, (T i).Chosen j r ∧ T (i + 1) = (T i).pivot j r := by
  have hback : (T n).isInBasis j = false → (T 0).isInBasis j = false := by
    simp only [← Bool.not_eq_true, hT.isInBasis_iff, imp_self]
  obtain ⟨i, hi, hP, hP'⟩ := exists_drop_of_cycle (P := fun i => (T i).isInBasis j = false)
    hback hl hk h0 (by simp [h1])
  exact ⟨i, hi, hT.toRun.enters hi hP (by simpa using hP')⟩

/-- A column that is basic at one time of the cycle and not at another leaves at some time. -/
theorem exists_leaves {j k l : ℕ} (hk : k ≤ n) (hl : l ≤ n)
    (h1 : (T k).isInBasis j = true) (h0 : (T l).isInBasis j = false) :
    ∃ i < n, ∃ c r, (T i).Chosen c r ∧ T (i + 1) = (T i).pivot c r ∧ (T i).basis r = j := by
  obtain ⟨i, hi, hP, hP'⟩ := exists_drop_of_cycle (P := fun i => (T i).isInBasis j = true)
    (hT.isInBasis_iff j).mp hk hl h1 (by simp [h0])
  exact ⟨i, hi, hT.toRun.leaves hi hP (by simpa using hP')⟩

/-- The last of the columns that enter during the cycle. -/
theorem exists_last : ∃ q, ∃ e < n, (∃ r, (T e).Chosen q r ∧ T (e + 1) = (T e).pivot q r) ∧
    ∀ i < n, ∀ c r, (T i).Chosen c r → T (i + 1) = (T i).pivot c r → c ≤ q := by
  let Enters (c : ℕ) : Prop := ∃ i < n, ∃ r, (T i).Chosen c r ∧ T (i + 1) = (T i).pivot c r
  have hbound : ∀ c, Enters c → c ≤ (T 0).enterable := by
    rintro c ⟨i, hi, r, hch, -⟩
    rw [← (hT.toRun.follows hi.le).enterable]
    exact hch.lt_enterable.le
  obtain ⟨c₀, r₀, hch₀, hpivot₀⟩ := hT.toRun.cases hT.pos
  have hc₀ : Enters c₀ := ⟨0, hT.pos, r₀, hch₀, hpivot₀⟩
  classical
  obtain ⟨e, he, r, hch, hpivot⟩ := Nat.findGreatest_spec (hbound c₀ hc₀) hc₀
  refine ⟨_, e, he, ⟨r, hch, hpivot⟩, fun i hi c r hch hpivot => ?_⟩
  have hc : Enters c := ⟨i, hi, r, hch, hpivot⟩
  exact Nat.le_findGreatest (hbound c hc) hc

theorem costRow_sub_mem {e d : ℕ} (he : e ≤ n) (hd : d ≤ n) :
    (T e).costRow - (T d).costRow ∈ (T d).rowSpace := by
  have hE := hT.toRun.follows he
  have hD := hT.toRun.follows hd
  have hsub := Submodule.sub_mem _ hE.costs hD.costs
  rwa [sub_sub_sub_cancel_right, ← hD.rowSpace] at hsub

/-- A column that is basic at one time of the cycle and not at another has the value zero. -/
theorem value_eq_zero {e d k : ℕ} (he : e ≤ n) (hd : d ≤ n) (hk : k < (T d).nrRows)
    (h : (T e).isInBasis ((T d).basis k) = false) : (T d).row k (T d).nrColumns = 0 := by
  have hk0 : k < (T 0).nrRows := hk.trans_eq (hT.toRun.follows hd).nrRows
  have hkE : k < (T e).nrRows := hk0.trans_eq (hT.toRun.follows he).nrRows.symm
  by_contra hne
  rw [hT.value_eq hd] at hne
  have hbasic := (hT.toRun.ready he).isInBasis_basis hkE
  rw [hT.basis_eq he hk0 hne, ← hT.basis_eq hd hk0 hne, h] at hbasic
  exact Bool.noConfusion hbasic

/-- The column that enters where the last column `q` leaves comes before it. -/
theorem lt_last {q d s r : ℕ} (hd : d < n)
    (hlast : ∀ i < n, ∀ c r, (T i).Chosen c r → T (i + 1) = (T i).pivot c r → c ≤ q)
    (hs : (T d).Chosen s r) (hpivot : T (d + 1) = (T d).pivot s r) (hr : (T d).basis r = q) :
    s < q := by
  have hbasic := (hT.toRun.ready hd.le).isInBasis_basis hs.lt_nrRows
  refine lt_of_le_of_ne (hlast d hd s r hs hpivot) ?_
  rintro rfl
  rw [hr, hs.not_basic] at hbasic
  exact Bool.noConfusion hbasic

section Last

variable {q e d s r r' : ℕ} (he : e < n) (hd : d < n)
  (hlast : ∀ i < n, ∀ c r, (T i).Chosen c r → T (i + 1) = (T i).pivot c r → c ≤ q)
  (hq : (T e).Chosen q r') (hs : (T d).Chosen s r) (hpivot : T (d + 1) = (T d).pivot s r)
  (hr : (T d).basis r = q)
include he hd hlast hq hs hpivot hr

/-- Where `q` leaves another row, whose basic column comes before `q`, limits the entering column
as well, and to zero. -/
theorem exists_rival : ∃ k < (T d).nrRows, (T d).basis k < q ∧ 0 < (T d).row k s ∧
    (T d).row k (T d).nrColumns = 0 := by
  have hE := hT.toRun.ready he.le
  have hD := hT.toRun.ready hd.le
  have hsq := hT.lt_last hd hlast hs hpivot hr
  obtain ⟨k, hk, hprod⟩ := hD.exists_pos_of_cost_lt (hT.costRow_sub_mem he.le hd.le)
    (hs.cost_neg.trans_le (hE.costRow_nonneg_of_lt hq hsq))
  have hbasic : (T e).isInBasis ((T d).basis k) = false := by
    by_contra hbasic
    obtain ⟨i, hi, heq⟩ := (hE.inBasis_iff _).mp (Bool.not_eq_false _ ▸ hbasic)
    rw [← heq, hE.reduced i hi, zero_mul] at hprod
    exact lt_irrefl 0 hprod
  obtain ⟨i, hi, ri, hch, hpi⟩ := hT.exists_enters hd.le he.le (hD.isInBasis_basis hk) hbasic
  have hkq : (T d).basis k < q := by
    refine lt_of_le_of_ne (hlast i hi _ ri hch hpi) ?_
    intro heq
    have hkr : k = r := hD.basis_inj hk hs.lt_nrRows (heq.trans hr.symm)
    rw [heq, hkr] at hprod
    exact absurd hprod (not_lt.mpr (mul_nonpos_of_nonpos_of_nonneg hq.cost_neg.le hs.entry_pos.le))
  exact ⟨k, hk, hkq, pos_of_mul_pos_right hprod (hE.costRow_nonneg_of_lt hq hkq),
    hT.value_eq_zero he.le hd.le hk hbasic⟩

/-- The tableau in which the last column `q` enters and one in which it leaves are at odds. -/
theorem not_leaves_of_last : False := by
  obtain ⟨k, hk, hkq, hentry, hvalue⟩ := hT.exists_rival he hd hlast hq hs hpivot hr
  have hratio : 0 ≤ (T d).row r (T d).nrColumns / (T d).row r s :=
    div_nonneg ((hT.toRun.ready hd.le).feasible r hs.lt_nrRows) hs.entry_pos.le
  rcases hs.least k hk hentry with hlt | ⟨-, hle⟩
  · simp only [candidate, hvalue, zero_div] at hlt
    exact absurd hlt (not_lt.mpr hratio)
  · simp only [candidate, hr] at hle
    exact absurd hkq (not_lt.mpr hle)

end Last

end Cycle

/-- A descent does not return to a basis. -/
theorem not_cycle {T : ℕ → Tableau ℚ} {n : ℕ} : ¬ Cycle T n := by
  intro hT
  obtain ⟨q, e, he, ⟨r', hq, hpivot⟩, hlast⟩ := hT.exists_last
  have hready := hT.toRun.ready he.le
  have hbasic : (T (e + 1)).isInBasis q = true := by
    rw [hpivot, isInBasis_pivot (hq.lt_enterable.trans_le hready.enterable_le)
      (hready.basis_lt hq.lt_nrRows), if_pos rfl]
  obtain ⟨d, hd, s, r, hs, hpivot', hr⟩ := hT.exists_leaves he he.le hbasic hq.not_basic
  exact hT.not_leaves_of_last he hd hlast hq hs hpivot' hr

/-! ## The number of moves -/

namespace Run

variable {T : ℕ → Tableau ℚ} {n : ℕ} (hT : Run T n)
include hT

/-- The basic column of every row, at some time of a run. -/
def bases (k : Fin (n + 1)) : Fin (T 0).nrRows → Fin (T 0).nrColumns := fun i =>
  have hk : (k : ℕ) ≤ n := Nat.lt_succ_iff.mp k.isLt
  have hf := hT.follows hk
  ⟨(T k).basis i, hf.nrColumns ▸ (hT.ready hk).basis_lt (hf.nrRows.symm ▸ i.isLt)⟩

theorem bases_injective : Function.Injective hT.bases := by
  have hne : ∀ k l : Fin (n + 1), k < l → hT.bases k ≠ hT.bases l := by
    intro k l hkl heq
    have hl : (l : ℕ) ≤ n := Nat.lt_succ_iff.mp l.isLt
    have hk : (k : ℕ) ≤ n := (Fin.le_def.mp hkl.le).trans hl
    refine not_cycle (T := fun i => T (k + i)) (n := l - k)
      ⟨hT.segment hkl.le hl, Nat.sub_pos_of_lt hkl, fun i hi => ?_⟩
    have hi' : i < (T 0).nrRows := by
      rw [← (hT.follows hk).nrRows]
      exact hi
    have hb := congrArg Fin.val (congrFun heq ⟨i, hi'⟩)
    simp only [Nat.add_sub_cancel' hkl.le, Nat.add_zero]
    exact hb.symm
  intro k l heq
  rcases lt_trichotomy k l with h | h | h
  · exact absurd heq (hne k l h)
  · exact h
  · exact absurd heq.symm (hne l k h)

/-- A run is shorter than the number of ways to choose a basic column for every row. -/
theorem lt_card : n < (T 0).nrColumns ^ (T 0).nrRows := by
  have hcard := Fintype.card_le_of_injective _ hT.bases_injective
  simpa using hcard

end Run

end Tableau
end LinProg
