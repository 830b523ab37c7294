/-
The choice of column and row, with exact arithmetic.

Whatever the tolerance, a move is to a column outside the basis, on an entry
above the tolerance (`entry_of_move`).  Without tolerance the entering column is
the first profitable one, and the leaving row is least among the rows that
limit the entering column, by ratio first and by basic column where ratios
agree (`Candidate.Before`); this is the rule under which the simplex method
does not cycle.
-/
import LinProg.Proofs.Tableau.Canonical

namespace LinProg
namespace Tableau

section Moves

variable {α : Type} [Scalar α] {t : Tableau α} {c r : ℕ}

/-! ## The move -/

theorem lt_enterable_of_enteringColumn? (h : t.enteringColumn? = some c) :
    c < t.enterable ∧ t.isInBasis c = false := by
  rw [enteringColumn?, List.find?_range_eq_some] at h
  obtain ⟨hc, hmem, -⟩ := h
  rw [Bool.and_eq_true, Bool.not_eq_true'] at hc
  exact ⟨List.mem_range.mp hmem, hc.1⟩

/-- The fold over the candidates ends with one of them, whatever the tolerance. -/
theorem foldl_order_mem (ε : α) (cs : List (Candidate α)) (a : Candidate α) :
    cs.foldl (fun a b => if a.order ε b = .gt then b else a) a ∈ a :: cs := by
  induction cs generalizing a with
  | nil => exact List.mem_singleton.mpr rfl
  | cons d ds ih =>
      rw [List.foldl_cons]
      split
      · exact List.mem_cons_of_mem _ (ih d)
      · rcases List.mem_cons.mp (ih a) with h | h
        · exact List.mem_cons.mpr (Or.inl h)
        · exact List.mem_cons_of_mem _ (List.mem_cons_of_mem _ h)

/-- The candidate that a row is for an entering column. -/
def candidate (t : Tableau α) (c i : ℕ) : Candidate α :=
  ⟨i, t.basis i, t.row i t.nrColumns / t.row i c⟩

theorem candidates_eq (t : Tableau α) (c : ℕ) :
    t.candidates c = (List.range t.nrRows).filterMap fun i =>
      if t.epsilon < t.row i c then some (t.candidate c i) else none := by
  have hlines : t.lines.mapIdx (fun i l => (i, l))
      = (List.range t.nrRows).map fun i => (i, t.line i) := by
    refine List.ext_getElem (by simp [nrRows]) ?_
    intro i hi _
    have hi' : i < t.lines.length := by simpa using hi
    simp [line_eq_getElem hi']
  rw [candidates, hlines, List.filterMap_map]
  rfl

theorem mem_candidates {x : Candidate α} :
    x ∈ t.candidates c ↔ ∃ i < t.nrRows, t.epsilon < t.row i c ∧ t.candidate c i = x := by
  rw [candidates_eq, List.mem_filterMap]
  constructor
  · rintro ⟨i, hi, hx⟩
    split_ifs at hx with hpos
    exact ⟨i, List.mem_range.mp hi, hpos, Option.some.inj hx⟩
  · rintro ⟨i, hi, hpos, hx⟩
    exact ⟨i, List.mem_range.mpr hi, (if_pos hpos).trans (congrArg some hx)⟩

theorem epsilon_lt_of_leavingRow? (h : t.leavingRow? c = some r) :
    r < t.nrRows ∧ t.epsilon < t.row r c := by
  rw [leavingRow?] at h
  obtain ⟨b, hb, rfl⟩ := Option.map_eq_some_iff.mp h
  cases hcs : t.candidates c with
  | nil => simp [hcs, best?] at hb
  | cons a cs =>
      rw [hcs] at hb
      have hmem := foldl_order_mem t.epsilon cs a
      rw [Option.some.inj hb, ← hcs] at hmem
      obtain ⟨r, hr, hpos, rfl⟩ := mem_candidates.mp hmem
      exact ⟨hr, hpos⟩

theorem move_eq_pivot (h : t.move = .pivot c r) :
    t.enteringColumn? = some c ∧ t.leavingRow? c = some r := by
  unfold move at h
  split at h
  · cases h
  · rename_i d hd
    split at h
    · rename_i k hk
      obtain ⟨rfl, rfl⟩ := Move.pivot.inj h
      exact ⟨hd, hk⟩
    · cases h

/-- A move is on an entry above the tolerance, in a column that may enter the basis. -/
theorem entry_of_move (h : t.move = .pivot c r) :
    c < t.enterable ∧ t.isInBasis c = false ∧ r < t.nrRows ∧ t.epsilon < t.row r c := by
  obtain ⟨hc, hr⟩ := move_eq_pivot h
  obtain ⟨hlt, hbasic⟩ := lt_enterable_of_enteringColumn? hc
  exact ⟨hlt, hbasic, epsilon_lt_of_leavingRow? hr⟩

theorem move_eq_unlimited (h : t.move = .unlimited c) :
    t.enteringColumn? = some c ∧ t.leavingRow? c = none := by
  unfold move at h
  split at h
  · cases h
  · rename_i d hd
    split at h
    · cases h
    · rename_i hk
      cases Move.unlimited.inj h
      exact ⟨hd, hk⟩

theorem move_eq_finished (h : t.move = .finished) : t.enteringColumn? = none := by
  unfold move at h
  split at h
  · assumption
  · split at h <;> cases h

end Moves

variable {t : Tableau ℚ} {c r : ℕ}

/-! ## The entering column -/

theorem enteringColumn?_eq_some (hε : t.epsilon = 0) (h : t.enteringColumn? = some c) :
    c < t.enterable ∧ t.isInBasis c = false ∧ t.costRow c < 0 ∧
      ∀ j < c, t.isInBasis j = true ∨ 0 ≤ t.costRow j := by
  rw [enteringColumn?, List.find?_range_eq_some] at h
  obtain ⟨hc, hmem, hbefore⟩ := h
  simp only [hε, neg_zero, Bool.and_eq_true, Bool.not_eq_true', decide_eq_true_eq] at hc
  refine ⟨List.mem_range.mp hmem, hc.1, hc.2, fun j hj => ?_⟩
  have h := hbefore j hj
  rcases hb : t.isInBasis j with _ | _
  · right
    simpa [hε, hb, costRow] using h
  · exact Or.inl rfl

theorem enteringColumn?_eq_none (hε : t.epsilon = 0) (h : t.enteringColumn? = none) :
    ∀ j < t.enterable, t.isInBasis j = true ∨ 0 ≤ t.costRow j := by
  intro j hj
  rw [enteringColumn?, List.find?_range_eq_none] at h
  have h := h j hj
  rcases hb : t.isInBasis j with _ | _
  · right
    simpa [hε, hb, costRow] using h
  · exact Or.inl rfl

/-! ## The leaving row -/

namespace Candidate

/-- One candidate is to be preferred to another: its ratio is smaller, or the ratios agree and
its basic column is not greater. -/
def Before (a b : Candidate ℚ) : Prop :=
  a.ratio < b.ratio ∨ a.ratio = b.ratio ∧ a.basic ≤ b.basic

theorem Before.refl (a : Candidate ℚ) : a.Before a := Or.inr ⟨rfl, le_rfl⟩

theorem Before.trans {a b c : Candidate ℚ} (hab : a.Before b) (hbc : b.Before c) :
    a.Before c := by
  rcases hab with hab | ⟨hab, hle⟩
  · rcases hbc with hbc | ⟨hbc, -⟩
    · exact Or.inl (hab.trans hbc)
    · exact Or.inl (hbc ▸ hab)
  · rcases hbc with hbc | ⟨hbc, hle'⟩
    · exact Or.inl (hab ▸ hbc)
    · exact Or.inr ⟨hab.trans hbc, hle.trans hle'⟩

theorem Before.total (a b : Candidate ℚ) : a.Before b ∨ b.Before a := by
  rcases lt_trichotomy a.ratio b.ratio with h | h | h
  · exact Or.inl (Or.inl h)
  · rcases le_total a.basic b.basic with hle | hle
    · exact Or.inl (Or.inr ⟨h, hle⟩)
    · exact Or.inr (Or.inr ⟨h.symm, hle⟩)
  · exact Or.inr (Or.inl h)

theorem order_eq_gt_iff (a b : Candidate ℚ) : a.order 0 b = .gt ↔ ¬ a.Before b := by
  rw [order, Scalar.abs_eq, Before]
  rcases lt_trichotomy a.ratio b.ratio with h | h | h
  · have hne : ¬ |a.ratio - b.ratio| ≤ 0 := by simp [sub_eq_zero, h.ne]
    rw [if_neg hne, Scalar.order_eq, if_pos h]
    simp [h]
  · simp [h, Nat.compare_eq_gt]
  · have hne : ¬ |a.ratio - b.ratio| ≤ 0 := by simp [sub_eq_zero, h.ne']
    rw [if_neg hne, Scalar.order_eq, if_neg h.not_gt, if_pos h]
    simp [h.not_gt, h.ne']

end Candidate

/-- Without tolerance the fold over the candidates ends with one that comes before all. -/
theorem foldl_order_before (cs : List (Candidate ℚ)) (a : Candidate ℚ) :
    ∀ x ∈ a :: cs, (cs.foldl (fun a b => if a.order 0 b = .gt then b else a) a).Before x := by
  induction cs generalizing a with
  | nil =>
      intro x hx
      rw [List.mem_singleton.mp hx]
      exact Candidate.Before.refl a
  | cons d ds ih =>
      intro x hx
      rw [List.foldl_cons]
      by_cases h : a.order 0 d = .gt
      · rw [if_pos h]
        rcases List.mem_cons.mp hx with rfl | hx
        · have hda : d.Before x :=
            (Candidate.Before.total x d).resolve_left ((Candidate.order_eq_gt_iff x d).mp h)
          exact (ih d d List.mem_cons_self).trans hda
        · exact ih d x hx
      · rw [if_neg h]
        have had : a.Before d := by
          by_contra had
          exact h ((Candidate.order_eq_gt_iff a d).mpr had)
        have ha := ih a a List.mem_cons_self
        rcases List.mem_cons.mp hx with rfl | hx
        · exact ha
        · rcases List.mem_cons.mp hx with rfl | hx
          · exact ha.trans had
          · exact ih a x (List.mem_cons_of_mem _ hx)

theorem leavingRow?_eq_some (hε : t.epsilon = 0) (h : t.leavingRow? c = some r) :
    r < t.nrRows ∧ 0 < t.row r c ∧
      ∀ i < t.nrRows, 0 < t.row i c → (t.candidate c r).Before (t.candidate c i) := by
  obtain ⟨hr, hpos⟩ := epsilon_lt_of_leavingRow? h
  refine ⟨hr, hε ▸ hpos, fun i hi hic => ?_⟩
  rw [leavingRow?, hε] at h
  obtain ⟨b, hb, rfl⟩ := Option.map_eq_some_iff.mp h
  have hi' : t.candidate c i ∈ t.candidates c :=
    mem_candidates.mpr ⟨i, hi, hε.trans_lt hic, rfl⟩
  cases hcs : t.candidates c with
  | nil => simp [hcs, best?] at hb
  | cons a cs =>
      rw [hcs] at hb hi'
      obtain rfl := Option.some.inj hb
      have hmem := foldl_order_mem 0 cs a
      rw [← hcs] at hmem
      obtain ⟨k, -, -, hk⟩ := mem_candidates.mp hmem
      rw [← hk]
      exact hk ▸ foldl_order_before cs a _ hi'

theorem leavingRow?_eq_none (hε : t.epsilon = 0) (h : t.leavingRow? c = none) :
    ∀ i < t.nrRows, t.row i c ≤ 0 := by
  intro i hi
  by_contra hpos
  have hmem : t.candidate c i ∈ t.candidates c :=
    mem_candidates.mpr ⟨i, hi, hε.trans_lt (not_le.mp hpos), rfl⟩
  rw [leavingRow?, Option.map_eq_none_iff] at h
  cases hcs : t.candidates c with
  | nil => simp [hcs] at hmem
  | cons a cs => simp [hcs, best?] at h

end Tableau
end LinProg
