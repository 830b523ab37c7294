/-
What one move of a descent keeps.

`Ready` is the invariant of both phases: canonical form, a nonnegative
basic solution, relative costs that are zero at the basis.  A move keeps
it and does not raise the objective; it leaves the objective as it is only
where the value of the leaving column is zero.  `Follows` says what the
tableaux of one descent have in common.
-/
import LinProg.Proofs.Tableau.Choice

namespace LinProg
namespace Tableau

variable {t t' t'' : Tableau ℚ} {c r : ℕ}

/-! ## What tableaux have in common -/

/-- Two tableaux for the same equations, with their rows in the same order. -/
structure SameRows (t t' : Tableau ℚ) : Prop where
  nrRows : t'.nrRows = t.nrRows
  nrColumns : t'.nrColumns = t.nrColumns
  firstArtificial : t'.firstArtificial = t.firstArtificial
  epsilon : t'.epsilon = t.epsilon
  unit : ∀ i, t'.unit i = t.unit i
  rowSpace : t'.rowSpace = t.rowSpace

theorem SameRows.refl (t : Tableau ℚ) : SameRows t t := ⟨rfl, rfl, rfl, rfl, fun _ => rfl, rfl⟩

theorem SameRows.trans (h : SameRows t t') (h' : SameRows t' t'') : SameRows t t'' where
  nrRows := h'.nrRows.trans h.nrRows
  nrColumns := h'.nrColumns.trans h.nrColumns
  firstArtificial := h'.firstArtificial.trans h.firstArtificial
  epsilon := h'.epsilon.trans h.epsilon
  unit i := (h'.unit i).trans (h.unit i)
  rowSpace := h'.rowSpace.trans h.rowSpace

theorem SameRows.pivot (ht : t.Rectangular) (hr : r < t.nrRows) (hc : t.row r c ≠ 0) :
    SameRows t (t.pivot c r) where
  nrRows := nrRows_pivot
  nrColumns := nrColumns_pivot
  firstArtificial := firstArtificial_pivot
  epsilon := epsilon_pivot
  unit := unit_pivot
  rowSpace := rowSpace_pivot ht hr hc

/-- Two tableaux of one descent: besides the equations they share the cost, which each of them
expresses in its own basis. -/
structure Follows (t t' : Tableau ℚ) : Prop extends SameRows t t' where
  enterable : t'.enterable = t.enterable
  costs : t'.costRow - t.costRow ∈ t.rowSpace

theorem Follows.refl (t : Tableau ℚ) : Follows t t :=
  ⟨SameRows.refl t, rfl, by simp⟩

theorem Follows.trans (h : Follows t t') (h' : Follows t' t'') : Follows t t'' where
  toSameRows := h.toSameRows.trans h'.toSameRows
  enterable := h'.enterable.trans h.enterable
  costs := by
    have hsum := Submodule.add_mem _ (h.rowSpace ▸ h'.costs) h.costs
    rwa [sub_add_sub_cancel] at hsum

theorem Follows.pivot (ht : t.Rectangular) (hr : r < t.nrRows) (hc : t.row r c ≠ 0) :
    Follows t (t.pivot c r) where
  toSameRows := SameRows.pivot ht hr hc
  enterable := enterable_pivot
  costs := by
    rw [costRow_pivot ht hr hc, sub_sub_cancel_left]
    exact Submodule.neg_mem _ (Submodule.smul_mem _ _ (row_mem_rowSpace r))

theorem Canonical.reduced_pivot (ht : t.Canonical)
    (hreduced : ∀ i < t.nrRows, t.costRow (t.basis i) = 0) (hr : r < t.nrRows)
    (hc : t.row r c ≠ 0) {i : ℕ} (hi : i < t.nrRows) :
    (t.pivot c r).costRow ((t.pivot c r).basis i) = 0 := by
  rw [basis_pivot hi, costRow_pivot ht.toRectangular hr hc]
  by_cases hir : i = r
  · simp [hir, hc]
  · have hri : t.row r (t.basis i) = 0 := ht.row_basis_of_ne hi (Ne.symm hir)
    simp [hir, hri, hreduced i hi]

/-! ## The invariant of a descent -/

/-- A tableau from which a descent may go on: the basic solution is feasible, and the relative
costs are zero at the basis. -/
structure Ready (t : Tableau ℚ) : Prop extends Canonical t where
  exact : t.epsilon = 0
  enterable_le : t.enterable ≤ t.nrColumns
  feasible : ∀ i < t.nrRows, 0 ≤ t.row i t.nrColumns
  reduced : ∀ i < t.nrRows, t.costRow (t.basis i) = 0

/-- Column and row of a move, with the reasons why they were taken. -/
structure Chosen (t : Tableau ℚ) (c r : ℕ) : Prop where
  lt_enterable : c < t.enterable
  not_basic : t.isInBasis c = false
  cost_neg : t.costRow c < 0
  first : ∀ j < c, t.isInBasis j = true ∨ 0 ≤ t.costRow j
  lt_nrRows : r < t.nrRows
  entry_pos : 0 < t.row r c
  least : ∀ i < t.nrRows, 0 < t.row i c → (t.candidate c r).Before (t.candidate c i)

theorem chosen_of_move (hε : t.epsilon = 0) (h : t.move = .pivot c r) : t.Chosen c r := by
  obtain ⟨hc, hr⟩ := move_eq_pivot h
  obtain ⟨h1, h2, h3, h4⟩ := enteringColumn?_eq_some hε hc
  obtain ⟨h5, h6, h7⟩ := leavingRow?_eq_some hε hr
  exact ⟨h1, h2, h3, h4, h5, h6, h7⟩

theorem objective_eq (t : Tableau ℚ) : t.objective = -(t.costRow t.nrColumns) := rfl

theorem Chosen.objective_pivot (h : t.Chosen c r) (ht : t.Rectangular) :
    (t.pivot c r).objective
      = t.objective + t.costRow c / t.row r c * t.row r t.nrColumns := by
  rw [objective_eq, objective_eq, nrColumns_pivot, costRow_pivot ht h.lt_nrRows h.entry_pos.ne']
  simp only [Pi.sub_apply, Pi.smul_apply, smul_eq_mul]
  ring

namespace Ready

variable (ht : t.Ready) (h : t.Chosen c r)
include ht h

/-- The ratio test keeps every value nonnegative. -/
theorem feasible_pivot {i : ℕ} (hi : i < t.nrRows) :
    0 ≤ (t.pivot c r).row i t.nrColumns := by
  have hr := ht.feasible r h.lt_nrRows
  by_cases hir : i = r
  · subst hir
    rw [row_pivot_self hi h.entry_pos.ne']
    exact mul_nonneg (inv_nonneg.mpr h.entry_pos.le) hr
  · rw [row_pivot_of_ne ht.toRectangular h.lt_nrRows h.entry_pos.ne' hir]
    simp only [Pi.sub_apply, Pi.smul_apply, smul_eq_mul, sub_nonneg]
    rcases le_or_gt (t.row i c) 0 with hneg | hpos
    · have hle : t.row i c / t.row r c * t.row r t.nrColumns ≤ 0 :=
        mul_nonpos_of_nonpos_of_nonneg (div_nonpos_of_nonpos_of_nonneg hneg h.entry_pos.le) hr
      exact hle.trans (ht.feasible i hi)
    · have hratio : t.row r t.nrColumns / t.row r c ≤ t.row i t.nrColumns / t.row i c := by
        rcases h.least i hi hpos with hlt | ⟨heq, -⟩
        · exact hlt.le
        · exact heq.le
      calc t.row i c / t.row r c * t.row r t.nrColumns
          = t.row i c * (t.row r t.nrColumns / t.row r c) := by ring
        _ ≤ t.row i c * (t.row i t.nrColumns / t.row i c) :=
            mul_le_mul_of_nonneg_left hratio hpos.le
        _ = t.row i t.nrColumns := mul_div_cancel₀ _ hpos.ne'

theorem pivot : (t.pivot c r).Ready where
  toCanonical := ht.toCanonical.pivot h.lt_nrRows h.entry_pos.ne' h.not_basic
    (h.lt_enterable.trans_le ht.enterable_le)
  exact := ht.exact
  enterable_le := by
    rw [nrColumns_pivot]
    exact ht.enterable_le
  feasible i hi := by
    rw [nrRows_pivot] at hi
    rw [nrColumns_pivot]
    exact ht.feasible_pivot h hi
  reduced i hi := by
    rw [nrRows_pivot] at hi
    exact ht.toCanonical.reduced_pivot ht.reduced h.lt_nrRows h.entry_pos.ne' hi

theorem follows_pivot : Follows t (t.pivot c r) :=
  Follows.pivot ht.toRectangular h.lt_nrRows h.entry_pos.ne'

/-- A move does not raise the objective. -/
theorem objective_pivot_le : (t.pivot c r).objective ≤ t.objective := by
  rw [h.objective_pivot ht.toRectangular]
  have hle : t.costRow c / t.row r c * t.row r t.nrColumns ≤ 0 :=
    mul_nonpos_of_nonpos_of_nonneg (div_nonpos_of_nonpos_of_nonneg h.cost_neg.le h.entry_pos.le)
      (ht.feasible r h.lt_nrRows)
  linarith

/-- A move that keeps the objective is degenerate: the value of the leaving column is zero. -/
theorem degenerate_of_objective_eq (heq : (t.pivot c r).objective = t.objective) :
    t.row r t.nrColumns = 0 := by
  rw [h.objective_pivot ht.toRectangular, add_eq_left, mul_eq_zero] at heq
  exact heq.resolve_left (div_neg_of_neg_of_pos h.cost_neg h.entry_pos).ne

end Ready

theorem value_pivot_of_degenerate (ht : t.Rectangular) (hr : r < t.nrRows) (hc : t.row r c ≠ 0)
    (h0 : t.row r t.nrColumns = 0) (i : ℕ) :
    (t.pivot c r).row i t.nrColumns = t.row i t.nrColumns := by
  by_cases hir : i = r
  · subst hir
    rw [row_pivot_self hr hc]
    simp [h0]
  · rw [row_pivot_of_ne ht hr hc hir]
    simp [h0]

/-! ## Steps -/

/-- One tableau is followed by another in a descent that is not stopped. -/
def Step (t t' : Tableau ℚ) : Prop := ∃ c r, t.move = .pivot c r ∧ t' = t.pivot c r

theorem Step.cases (ht : t.Ready) (h : Step t t') : ∃ c r, t.Chosen c r ∧ t' = t.pivot c r := by
  obtain ⟨c, r, hmove, rfl⟩ := h
  exact ⟨c, r, chosen_of_move ht.exact hmove, rfl⟩

theorem Step.ready (ht : t.Ready) (h : Step t t') : t'.Ready := by
  obtain ⟨c, r, hch, rfl⟩ := h.cases ht
  exact ht.pivot hch

theorem Step.follows (ht : t.Ready) (h : Step t t') : Follows t t' := by
  obtain ⟨c, r, hch, rfl⟩ := h.cases ht
  exact ht.follows_pivot hch

end Tableau
end LinProg
