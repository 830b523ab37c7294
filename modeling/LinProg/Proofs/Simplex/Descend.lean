/-
The descent as the simplex method runs it.

`descend` walks along `Step`s until no move is left, until it is stopped,
or until its bound is reached; the last does not happen, since a run
cannot be longer than there are bases (`halt_ne_exhausted`).  What the
other two ends mean for the cost is read from the last tableau.
-/
import LinProg.Proofs.Tableau.Bland
import LinProg.Proofs.Tableau.Solutions
import LinProg.Simplex

namespace LinProg
namespace Tableau

variable {t t' : Tableau ℚ} {control : Control} {fuel asked : ℕ} {log : List (ℕ × ℚ)}

/-! ## Where a descent leads -/

/-- A tableau is reached from another by steps of a descent. -/
def Reaches (t t' : Tableau ℚ) : Prop := Relation.ReflTransGen Step t t'

theorem Reaches.ready (h : Reaches t t') (ht : t.Ready) : t'.Ready := by
  induction h with
  | refl => exact ht
  | tail _ hstep ih => exact hstep.ready ih

theorem Reaches.follows (h : Reaches t t') (ht : t.Ready) : Follows t t' := by
  induction h with
  | refl => exact Follows.refl t
  | tail hreach hstep ih => exact ih.trans (hstep.follows (Reaches.ready hreach ht))

theorem Reaches.objective_le (h : Reaches t t') (ht : t.Ready) : t'.objective ≤ t.objective := by
  induction h with
  | refl => exact le_rfl
  | tail hreach hstep ih =>
      have hready := Reaches.ready hreach ht
      obtain ⟨c, r, hch, rfl⟩ := hstep.cases hready
      exact (hready.objective_pivot_le hch).trans ih

theorem descend_succ (control : Control) (fuel asked : ℕ) (log : List (ℕ × ℚ))
    (t : Tableau ℚ) :
    descend control (fuel + 1) asked log t =
      match control asked with
      | some why => ⟨.interrupted why, t, (t.iterations, t.objective) :: log⟩
      | none =>
          match t.move with
          | .finished => ⟨.finished, t, (t.iterations, t.objective) :: log⟩
          | .unlimited _ => ⟨.unlimited, t, (t.iterations, t.objective) :: log⟩
          | .pivot column row =>
              descend control fuel (asked + 1) ((t.iterations, t.objective) :: log)
                (t.pivot column row) := rfl

/-- The last tableau is reached by steps, and the way it came about is what its next move says. -/
theorem descend_spec (control : Control) (fuel asked : ℕ) (log : List (ℕ × ℚ))
    (t : Tableau ℚ) :
    let d := descend control fuel asked log t
    Reaches t d.tableau ∧ (d.halt = .finished → d.tableau.move = .finished) ∧
      (d.halt = .unlimited → ∃ c, d.tableau.move = .unlimited c) := by
  induction fuel generalizing asked log t with
  | zero => exact ⟨.refl, nofun, nofun⟩
  | succ fuel ih =>
      rw [descend_succ]
      cases control asked with
      | some why => exact ⟨.refl, nofun, nofun⟩
      | none =>
          cases hmove : t.move with
          | finished => exact ⟨.refl, fun _ => hmove, nofun⟩
          | unlimited c => exact ⟨.refl, nofun, fun _ => ⟨c, hmove⟩⟩
          | pivot c r =>
              obtain ⟨hreach, hend⟩ := ih (asked + 1) ((t.iterations, t.objective) :: log)
                (t.pivot c r)
              exact ⟨.head ⟨c, r, hmove, rfl⟩ hreach, hend⟩

/-- A descent that was given up made a move for every question it could ask. -/
theorem exists_run_of_exhausted (ht : t.Ready)
    (h : (descend control fuel asked log t).halt = .exhausted) :
    ∃ T, T 0 = t ∧ Run T fuel := by
  induction fuel generalizing asked log t with
  | zero => exact ⟨fun _ => t, rfl, ht, fun k hk => absurd hk (Nat.not_lt_zero k)⟩
  | succ fuel ih =>
      rw [descend_succ] at h
      cases hc : control asked with
      | some why => simp [hc] at h
      | none =>
          cases hmove : t.move with
          | finished => simp [hc, hmove] at h
          | unlimited c => simp [hc, hmove] at h
          | pivot c r =>
              simp only [hc, hmove] at h
              have hstep : Step t (t.pivot c r) := ⟨c, r, hmove, rfl⟩
              obtain ⟨T, hT0, hT⟩ := ih (hstep.ready ht) h
              refine ⟨fun k => Nat.casesOn k t T, rfl, ht, fun k hk => ?_⟩
              cases k with
              | zero =>
                  show Step t (T 0)
                  rw [hT0]
                  exact hstep
              | succ k => exact hT.step k (Nat.lt_of_succ_lt_succ hk)

/-- No descent is given up that may make as many moves as there are ways to choose a basic column
for every row. -/
theorem halt_ne_exhausted (control : Control) (asked : ℕ) (log : List (ℕ × ℚ)) (ht : t.Ready)
    (hfuel : t.nrColumns ^ t.nrRows ≤ fuel) :
    (descend control fuel asked log t).halt ≠ .exhausted := by
  intro h
  obtain ⟨T, rfl, hT⟩ := exists_run_of_exhausted ht h
  exact absurd hT.lt_card (not_lt.mpr hfuel)

theorem card_le_moveBound (t : Tableau ℚ) : t.nrColumns ^ t.nrRows ≤ t.moveBound :=
  (Nat.le_mul_of_pos_left _ (by decide : 0 < patience)).trans (Nat.le_succ _)

/-- How a descent ends that may make as many moves. -/
theorem descend_cases (control : Control) (asked : ℕ) (log : List (ℕ × ℚ)) (ht : t.Ready)
    (hfuel : t.nrColumns ^ t.nrRows ≤ fuel) :
    let d := descend control fuel asked log t
    Reaches t d.tableau ∧
      ((d.halt = .finished ∧ d.tableau.move = .finished) ∨
        (d.halt = .unlimited ∧ ∃ c, d.tableau.move = .unlimited c) ∨
        ∃ why, d.halt = .interrupted why) := by
  intro d
  obtain ⟨hreach, hfinished, hunlimited⟩ := descend_spec control fuel asked log t
  refine ⟨hreach, ?_⟩
  cases hhalt : d.halt with
  | finished => exact Or.inl ⟨rfl, hfinished hhalt⟩
  | unlimited => exact Or.inr (Or.inl ⟨rfl, hunlimited hhalt⟩)
  | interrupted why => exact Or.inr (Or.inr ⟨why, rfl⟩)
  | exhausted => exact absurd hhalt (halt_ne_exhausted control asked log ht hfuel)

theorem halt_ne_interrupted (why : Interrupt) :
    (descend Control.never fuel asked log t).halt ≠ .interrupted why := by
  induction fuel generalizing asked log t with
  | zero => exact nofun
  | succ fuel ih =>
      rw [descend_succ]
      cases hmove : t.move with
      | finished => exact nofun
      | unlimited c => exact nofun
      | pivot c r => exact ih

/-! ## What the ends of a descent mean -/

namespace Ready

variable (ht : t.Ready)
include ht

theorem costRow_nonneg (h : t.move = .finished) {j : ℕ} (hj : j < t.enterable) :
    0 ≤ t.costRow j := by
  rcases enteringColumn?_eq_none ht.exact (move_eq_finished h) j hj with hbasic | hnonneg
  · obtain ⟨i, hi, rfl⟩ := (ht.inBasis_iff j).mp hbasic
    exact (ht.reduced i hi).ge
  · exact hnonneg

/-- A solution that is zero at the columns that may not enter costs at least the objective. -/
theorem objective_le_cost (h : t.move = .finished) {cost z : ℕ → ℚ} (hp : t.Prices cost)
    (hz : t.Solves z) (hnonneg : ∀ j, 0 ≤ z j)
    (hzero : ∀ j < t.nrColumns, t.enterable ≤ j → z j = 0) :
    t.objective ≤ ∑ j ∈ Finset.range t.nrColumns, cost j * z j := by
  rw [hp.cost_eq hz]
  refine le_add_of_nonneg_left (Finset.sum_nonneg fun j hj => ?_)
  rcases lt_or_ge j t.enterable with hje | hje
  · exact mul_nonneg (ht.costRow_nonneg h hje) (hnonneg j)
  · rw [hzero j (Finset.mem_range.mp hj) hje, mul_zero]

/-- When nothing limits a profitable column the cost falls without limit along an edge. -/
theorem exists_along_lt {c : ℕ} (hc : c < t.nrColumns) (hneg : t.costRow c < 0)
    (hrow : t.leavingRow? c = none) {cost : ℕ → ℚ} (hp : t.Prices cost) (K : ℚ) :
    ∃ θ, 0 ≤ θ ∧ (∀ j, 0 ≤ t.along c θ j) ∧
      ∑ j ∈ Finset.range t.nrColumns, cost j * t.along c θ j < K := by
  have hlimit := leavingRow?_eq_none ht.exact hrow
  -- far enough along the edge to make up for the distance between the objective and `K`
  refine ⟨(|t.objective - K| + 1) / -(t.costRow c), ?_, ?_, ?_⟩
  · exact div_nonneg (by positivity) (neg_nonneg.mpr hneg.le)
  · exact ht.along_nonneg hlimit (div_nonneg (by positivity) (neg_nonneg.mpr hneg.le))
  · rw [ht.cost_along hp hc]
    have hmul : t.costRow c * ((|t.objective - K| + 1) / -(t.costRow c))
        = -(|t.objective - K| + 1) := by
      field_simp [hneg.ne]
    rw [hmul]
    linarith [le_abs_self (t.objective - K)]

/-- A cost that is nowhere negative does not fall without limit, so every profitable column has a
row to enter on. -/
theorem exists_leavingRow {c : ℕ} (hc : c < t.nrColumns) (hneg : t.costRow c < 0)
    {cost : ℕ → ℚ} (hp : t.Prices cost) (hcost : ∀ j, 0 ≤ cost j) :
    ∃ r, t.leavingRow? c = some r := by
  cases hrow : t.leavingRow? c with
  | some r => exact ⟨r, rfl⟩
  | none =>
      obtain ⟨θ, -, hnonneg, hlt⟩ := ht.exists_along_lt hc hneg hrow hp 0
      exact absurd hlt
        (not_lt.mpr (Finset.sum_nonneg fun j _ => mul_nonneg (hcost j) (hnonneg j)))

end Ready

end Tableau
end LinProg
