/-
The ratio test with a tolerance.

Ratios that agree up to the tolerance count as equal, and of two rows with such
ratios the one with the lower basic column is kept.  Agreeing in this way is not
transitive: from row to row the best ratio may go up by the tolerance each time,
as long as the basic columns go down.  So the row that is left over is above the
smallest ratio by at most one tolerance for each comparison
(`foldl_prefer_ratio_le`), and a ladder of rows shows that it can be just as
much (`leavingRow?_ladder`).

Where agreeing is transitive on the ratios at hand the test is right up to one
tolerance (`order_foldl_prefer`).
-/
import LinProg.Proofs.StandardForm.Conversion
import LinProg.Proofs.Tableau.Choice

namespace LinProg
namespace Tableau

namespace Candidate

variable {ε : ℚ} {a b c : Candidate ℚ}

theorem order_eq_gt_iff_of_tolerance :
    a.order ε b = .gt ↔
      (|a.ratio - b.ratio| ≤ ε ∧ b.basic < a.basic) ∨
        (ε < |a.ratio - b.ratio| ∧ b.ratio < a.ratio) := by
  rw [order, Scalar.abs_eq]
  by_cases hagree : |a.ratio - b.ratio| ≤ ε
  · rw [if_pos hagree, Nat.compare_eq_gt]
    simp [hagree, not_lt.mpr hagree]
  · rw [if_neg hagree, Scalar.order_eq]
    rcases lt_trichotomy a.ratio b.ratio with h | h | h
    · simp [hagree, h, h.not_gt]
    · have hneg : ¬ 0 ≤ ε := by simpa [h] using hagree
      simp [h, hneg]
    · simp [hagree, h, h.not_gt, not_le.mp hagree]

/-- Which of two candidates is kept. -/
def prefer (ε : ℚ) (a b : Candidate ℚ) : Candidate ℚ := if a.order ε b = .gt then b else a

/-! ## What one comparison and a row of them may add -/

/-- The candidate that is kept is above neither of the two by more than the tolerance. -/
theorem ratio_prefer_le (hε : 0 ≤ ε) :
    (prefer ε a b).ratio ≤ a.ratio + ε ∧ (prefer ε a b).ratio ≤ b.ratio + ε := by
  rw [prefer]
  by_cases h : a.order ε b = .gt
  · rw [if_pos h]
    refine ⟨?_, le_add_of_nonneg_right hε⟩
    rcases order_eq_gt_iff_of_tolerance.mp h with ⟨hagree, -⟩ | ⟨-, hlt⟩
    · have hle := (abs_le.mp hagree).1
      linarith
    · linarith
  · rw [if_neg h]
    refine ⟨le_add_of_nonneg_right hε, ?_⟩
    by_contra hlt
    have hfar : ε < |a.ratio - b.ratio| := lt_abs.mpr (Or.inl (by linarith))
    exact h (order_eq_gt_iff_of_tolerance.mpr (Or.inr ⟨hfar, by linarith⟩))

/-- Every comparison may add the tolerance. -/
theorem foldl_prefer_ratio_le (hε : 0 ≤ ε) (cs : List (Candidate ℚ)) (a : Candidate ℚ) :
    ∀ x ∈ a :: cs, (cs.foldl (prefer ε) a).ratio ≤ x.ratio + cs.length * ε := by
  induction cs generalizing a with
  | nil =>
      intro x hx
      rw [List.mem_singleton.mp hx]
      simp
  | cons d ds ih =>
      intro x hx
      rw [List.foldl_cons, List.length_cons]
      push_cast
      obtain ⟨hleft, hright⟩ := ratio_prefer_le (a := a) (b := d) hε
      have hkept := ih (prefer ε a d) _ List.mem_cons_self
      rcases List.mem_cons.mp hx with rfl | hx
      · linarith
      · rcases List.mem_cons.mp hx with rfl | hx
        · linarith
        · have hrest := ih (prefer ε a d) x (List.mem_cons_of_mem _ hx)
          linarith

/-! ## Where agreeing is transitive -/

/-- Candidates among which ratios agree with one another that agree with a third one. -/
def Bunched (ε : ℚ) (cs : List (Candidate ℚ)) : Prop :=
  ∀ a ∈ cs, ∀ b ∈ cs, ∀ c ∈ cs,
    |a.ratio - b.ratio| ≤ ε → |b.ratio - c.ratio| ≤ ε → |a.ratio - c.ratio| ≤ ε

theorem Bunched.mono {cs ds : List (Candidate ℚ)} (h : Bunched ε ds) (hsub : cs ⊆ ds) :
    Bunched ε cs :=
  fun a ha b hb c hc => h a (hsub ha) b (hsub hb) c (hsub hc)

theorem order_ne_gt_iff :
    a.order ε b ≠ .gt ↔
      (|a.ratio - b.ratio| ≤ ε → a.basic ≤ b.basic) ∧
        (ε < |a.ratio - b.ratio| → a.ratio ≤ b.ratio) := by
  rw [ne_eq, order_eq_gt_iff_of_tolerance, not_or, not_and, not_and, not_lt, not_lt]

theorem Bunched.order_trans {cs : List (Candidate ℚ)} (h : Bunched ε cs) (ha : a ∈ cs)
    (hb : b ∈ cs) (hc : c ∈ cs) (hab : a.order ε b ≠ .gt) (hbc : b.order ε c ≠ .gt) :
    a.order ε c ≠ .gt := by
  rw [order_ne_gt_iff] at hab hbc ⊢
  rcases le_or_gt |a.ratio - b.ratio| ε with h₁ | h₁
  · rcases le_or_gt |b.ratio - c.ratio| ε with h₂ | h₂
    · have h₃ := h a ha b hb c hc h₁ h₂
      exact ⟨fun _ => (hab.1 h₁).trans (hbc.1 h₂), fun hfar => absurd h₃ (not_le.mpr hfar)⟩
    · -- `a` agrees with `b`, which is below `c`
      refine ⟨fun h₃ => ?_, fun hfar => ?_⟩
      · exact absurd (h b hb a ha c hc (abs_sub_comm a.ratio b.ratio ▸ h₁) h₃) (not_le.mpr h₂)
      · have hle := hbc.2 h₂
        rw [abs_sub_comm, abs_of_nonneg (sub_nonneg.mpr hle)] at h₂
        have hlt := (abs_le.mp h₁).2
        linarith
  · have hle := hab.2 h₁
    rw [abs_sub_comm, abs_of_nonneg (sub_nonneg.mpr hle)] at h₁
    rcases le_or_gt |b.ratio - c.ratio| ε with h₂ | h₂
    · -- `a` is below `b`, which agrees with `c`
      refine ⟨fun h₃ => ?_, fun _ => ?_⟩
      · have h₄ := h a ha c hc b hb h₃ (abs_sub_comm b.ratio c.ratio ▸ h₂)
        rw [abs_sub_comm, abs_of_nonneg (sub_nonneg.mpr hle)] at h₄
        exact absurd h₄ (not_le.mpr h₁)
      · have hlt := (abs_le.mp h₂).2
        linarith
    · have hle' := hbc.2 h₂
      refine ⟨fun h₃ => ?_, fun _ => hle.trans hle'⟩
      have hlt := (abs_le.mp h₃).1
      linarith

theorem order_prefer (ε : ℚ) (a b : Candidate ℚ) :
    (prefer ε a b).order ε a ≠ .gt ∧ (prefer ε a b).order ε b ≠ .gt := by
  have hself : ∀ x : Candidate ℚ, x.order ε x ≠ .gt := fun x =>
    order_ne_gt_iff.mpr ⟨fun _ => le_rfl, fun _ => le_rfl⟩
  rw [prefer]
  by_cases h : a.order ε b = .gt
  · rw [if_pos h]
    refine ⟨?_, hself b⟩
    rw [order_ne_gt_iff, abs_sub_comm]
    rcases order_eq_gt_iff_of_tolerance.mp h with ⟨hagree, hlt⟩ | ⟨hfar, hlt⟩
    · exact ⟨fun _ => hlt.le, fun hfar => absurd hagree (not_le.mpr hfar)⟩
    · exact ⟨fun hagree => absurd hagree (not_le.mpr hfar), fun _ => hlt.le⟩
  · rw [if_neg h]
    exact ⟨hself a, h⟩

/-- Among bunched candidates the one that is left over would be kept beside each of them. -/
theorem order_foldl_prefer (cs : List (Candidate ℚ)) (a : Candidate ℚ)
    (h : Bunched ε (a :: cs)) : ∀ x ∈ a :: cs, (cs.foldl (prefer ε) a).order ε x ≠ .gt := by
  induction cs generalizing a with
  | nil =>
      intro x hx
      rw [List.mem_singleton.mp hx]
      exact order_ne_gt_iff.mpr ⟨fun _ => le_rfl, fun _ => le_rfl⟩
  | cons d ds ih =>
      have hkept : prefer ε a d ∈ a :: d :: ds := by
        rw [prefer]
        split
        · exact List.mem_cons_of_mem _ List.mem_cons_self
        · exact List.mem_cons_self
      have hsub : prefer ε a d :: ds ⊆ a :: d :: ds :=
        List.cons_subset.mpr ⟨hkept, fun x hx =>
          List.mem_cons_of_mem _ (List.mem_cons_of_mem _ hx)⟩
      have hrest := ih (prefer ε a d) (h.mono hsub)
      have hleft : ds.foldl (prefer ε) (prefer ε a d) ∈ a :: d :: ds :=
        hsub (foldl_order_mem ε ds (prefer ε a d))
      obtain ⟨ha, hd⟩ := order_prefer ε a d
      intro x hx
      rw [List.foldl_cons]
      rcases List.mem_cons.mp hx with rfl | hx'
      · exact h.order_trans hleft hkept hx (hrest _ List.mem_cons_self) ha
      · rcases List.mem_cons.mp hx' with rfl | hx'
        · exact h.order_trans hleft hkept hx (hrest _ List.mem_cons_self) hd
        · exact hrest x (List.mem_cons_of_mem _ hx')

end Candidate

/-! ## The leaving row -/

variable {t : Tableau ℚ} {c : ℕ}

/-- The value at which the basic column of a row becomes zero when a column enters. -/
def ratio (t : Tableau ℚ) (c i : ℕ) : ℚ := t.row i t.nrColumns / t.row i c

def limiting (c : ℕ) (t : Tableau ℚ) : ℕ := t.lines.countP fun l => t.epsilon < l.entry c

theorem length_candidates (t : Tableau ℚ) (c : ℕ) : (t.candidates c).length = t.limiting c := by
  rw [candidates_eq, List.length_filterMap_eq_countP, limiting]
  conv_rhs => rw [lines_eq_map, List.countP_map]
  refine List.countP_congr ?_
  intro i _
  by_cases h : t.epsilon < t.row i c
  · simp [h, show t.epsilon < (t.line i).entry c from h]
  · simp [h, show ¬ t.epsilon < (t.line i).entry c from h]

theorem leavingRow?_eq_none_iff :
    t.leavingRow? c = none ↔ ∀ i < t.nrRows, ¬ t.epsilon < t.row i c := by
  have hempty : t.leavingRow? c = none ↔ t.candidates c = [] := by
    rw [leavingRow?, Option.map_eq_none_iff]
    cases t.candidates c with
    | nil => simp [best?]
    | cons a cs => simp [best?]
  rw [hempty, List.eq_nil_iff_forall_not_mem]
  constructor
  · intro h i hi hentry
    exact h _ (mem_candidates.mpr ⟨i, hi, hentry, rfl⟩)
  · intro h x hx
    obtain ⟨i, hi, hentry, -⟩ := mem_candidates.mp hx
    exact h i hi hentry

theorem exists_foldl_of_leavingRow? {r : ℕ} (h : t.leavingRow? c = some r) :
    ∃ a cs, t.candidates c = a :: cs ∧
      cs.foldl (Candidate.prefer t.epsilon) a = t.candidate c r := by
  rw [leavingRow?] at h
  obtain ⟨b, hb, rfl⟩ := Option.map_eq_some_iff.mp h
  cases hcs : t.candidates c with
  | nil => simp [hcs, best?] at hb
  | cons a cs =>
      rw [hcs] at hb
      have hfold : cs.foldl (Candidate.prefer t.epsilon) a = b := Option.some.inj hb
      have hmem : b ∈ t.candidates c := by
        rw [hcs, ← hfold]
        exact foldl_order_mem t.epsilon cs a
      obtain ⟨i, -, -, rfl⟩ := mem_candidates.mp hmem
      exact ⟨a, cs, rfl, hfold⟩

/-! ## Ladders -/

/-- Rows whose ratios go up by the tolerance from one to the next while their basic columns go
down; column zero is the only one that is not basic. -/
def ladder (ε : ℚ) (n : ℕ) : Tableau ℚ where
  lines := (List.range (n + 1)).map fun i =>
    { entries :=
        (ε + 1) :: (List.range (n + 1)).map (fun j => if j = n - i then 1 else 0)
          ++ [i * ε * (ε + 1)]
      basic := n + 1 - i
      unit := n + 1 - i }
  costs := List.replicate (n + 3) 0
  inBasis := false :: List.replicate (n + 1) true
  firstArtificial := n + 2
  enterable := n + 2
  epsilon := ε
  iterations := 0

def rung (ε : ℚ) (n i : ℕ) : Candidate ℚ := ⟨i, n + 1 - i, i * ε⟩

section Ladder

variable {ε : ℚ} {n i : ℕ}

theorem nrRows_ladder : (ladder ε n).nrRows = n + 1 := by simp [nrRows, ladder]

theorem row_ladder (hi : i < n + 1) : (ladder ε n).row i 0 = ε + 1 := by
  simp [row, line, ladder, Line.entry, List.getD_eq_getElem?_getD, hi]

theorem candidate_ladder (hε : 0 ≤ ε) (hi : i < n + 1) :
    (ladder ε n).candidate 0 i = rung ε n i := by
  have hpos : ε + 1 ≠ 0 := by linarith
  have hcolumns : (ladder ε n).nrColumns = n + 2 := by simp [nrColumns, ladder]
  have hvalue : (ladder ε n).row i (n + 2) = i * ε * (ε + 1) := by
    simp [row, line, ladder, Line.entry, List.getD_eq_getElem?_getD, hi]
  have hbasis : (ladder ε n).basis i = n + 1 - i := by
    simp [basis, line, ladder, List.getD_eq_getElem?_getD, hi]
  rw [candidate, rung, hcolumns, hvalue, hbasis, row_ladder hi, mul_div_cancel_right₀ _ hpos]

theorem candidates_ladder (hε : 0 ≤ ε) (n : ℕ) :
    (ladder ε n).candidates 0 = (List.range (n + 1)).map (rung ε n) := by
  rw [candidates_eq, nrRows_ladder, ← List.filterMap_eq_map]
  refine List.filterMap_congr ?_
  intro i hi
  have hi : i < n + 1 := List.mem_range.mp hi
  have hentry : (ladder ε n).epsilon < (ladder ε n).row i 0 := by
    rw [row_ladder hi]
    exact lt_add_one ε
  rw [if_pos hentry, candidate_ladder hε hi]
  rfl

theorem prefer_rung (hε : 0 ≤ ε) (hi : i < n) :
    Candidate.prefer ε (rung ε n i) (rung ε n (i + 1)) = rung ε n (i + 1) := by
  refine if_pos (Candidate.order_eq_gt_iff_of_tolerance.mpr (Or.inl ⟨?_, ?_⟩))
  · have hstep : (rung ε n i).ratio - (rung ε n (i + 1)).ratio = -ε := by
      simp only [rung]
      push_cast
      ring
    rw [hstep, abs_neg, abs_of_nonneg hε]
  · simp only [rung]
    omega

theorem foldl_prefer_rung (hε : 0 ≤ ε) {k : ℕ} (hk : k ≤ n) :
    ((List.range k).map fun i => rung ε n (i + 1)).foldl (Candidate.prefer ε) (rung ε n 0)
      = rung ε n k := by
  induction k with
  | zero => rfl
  | succ k ih =>
      rw [List.range_succ, List.map_append, List.foldl_append, ih (Nat.le_of_succ_le hk)]
      exact prefer_rung hε hk

/-- The last row of a ladder is taken, by as many tolerances above the first one as there are rows
in between. -/
theorem leavingRow?_ladder (hε : 0 ≤ ε) (n : ℕ) :
    (ladder ε n).leavingRow? 0 = some n ∧
      (ladder ε n).ratio 0 n = (ladder ε n).ratio 0 0 + n * ε := by
  constructor
  · have hfold := foldl_prefer_rung hε (le_refl n)
    rw [leavingRow?, candidates_ladder hε, List.range_succ_eq_map, List.map_cons, List.map_map]
    exact congrArg (fun x => some x.row) hfold
  · have hlast := candidate_ladder (n := n) hε (Nat.lt_succ_self n)
    have hfirst := candidate_ladder (n := n) hε (Nat.succ_pos n)
    have hratio : ∀ i, (ladder ε n).ratio 0 i = ((ladder ε n).candidate 0 i).ratio := fun i => rfl
    rw [hratio, hratio, hlast, hfirst]
    simp [rung]

end Ladder

/-! ## How far the test may be off -/

/-- The ratio test comes back with a row whose entry is above the tolerance, if there is one.  Its
ratio exceeds the smallest one by at most the tolerance for every other row that limits the column,
and ladders of any number of rows exceed it by just that.  Where ratios agree that agree with a
third one, it is at most the tolerance, and no row with an agreeing ratio has a lower basic
column. -/
theorem leavingRow?_within (t : Tableau ℚ) (c : ℕ) (hε : 0 ≤ t.epsilon) :
    (t.leavingRow? c = none ↔ ∀ i < t.nrRows, ¬ t.epsilon < t.row i c) ∧
      (∀ r, t.leavingRow? c = some r →
        r < t.nrRows ∧ t.epsilon < t.row r c ∧
          ∀ i < t.nrRows, t.epsilon < t.row i c →
            t.ratio c r ≤ t.ratio c i + (t.limiting c - 1 : ℕ) * t.epsilon ∧
              (Candidate.Bunched t.epsilon (t.candidates c) →
                t.ratio c r ≤ t.ratio c i + t.epsilon ∧
                  (|t.ratio c r - t.ratio c i| ≤ t.epsilon → t.basis r ≤ t.basis i))) ∧
      ∀ n, (ladder t.epsilon n).limiting 0 = n + 1 ∧
        (ladder t.epsilon n).leavingRow? 0 = some n ∧
        (ladder t.epsilon n).ratio 0 n = (ladder t.epsilon n).ratio 0 0 + n * t.epsilon := by
  refine ⟨leavingRow?_eq_none_iff, ?_, ?_⟩
  · intro r hr
    obtain ⟨hrow, hentry⟩ := epsilon_lt_of_leavingRow? hr
    obtain ⟨a, cs, hcs, hfold⟩ := exists_foldl_of_leavingRow? hr
    refine ⟨hrow, hentry, ?_⟩
    intro i hi hpos
    have hmem : t.candidate c i ∈ a :: cs := hcs ▸ mem_candidates.mpr ⟨i, hi, hpos, rfl⟩
    constructor
    · have hle := Candidate.foldl_prefer_ratio_le hε cs a _ hmem
      rw [hfold] at hle
      rw [← length_candidates, hcs, List.length_cons, Nat.add_sub_cancel]
      exact hle
    · intro hbunched
      have hkept := Candidate.order_foldl_prefer cs a (hcs ▸ hbunched) _ hmem
      rw [hfold, Candidate.order_ne_gt_iff] at hkept
      obtain ⟨hbasic, hratio⟩ := hkept
      refine ⟨?_, hbasic⟩
      rcases le_or_gt |t.ratio c r - t.ratio c i| t.epsilon with hagree | hfar
      · have hle := (abs_le.mp hagree).2
        linarith
      · exact (hratio hfar).trans (le_add_of_nonneg_right hε)
  · intro n
    obtain ⟨hrow, hratio⟩ := leavingRow?_ladder hε n
    refine ⟨?_, hrow, hratio⟩
    rw [← length_candidates, candidates_ladder hε, List.length_map, List.length_range]

/-- One nonnegative variable, which is to be one and a half, to be one, and at most two. -/
def crowded : Model ℚ where
  sense := .minimize
  cost := []
  rows := [Row.plain [(0, 1)] .equal (3 / 2), Row.plain [(0, 1)] .equal 1,
    Row.plain [(0, 1)] .less 2]
  columns := [Column.nonnegative (10 ^ 30)]

/-- The first tableau on the artificial cost, where one half counts as zero. -/
def crowdedStart : Tableau ℚ := (start (crowded.converted (10 ^ 30)) (1 / 2)).setArtificialCost

theorem leavingRow?_within_crowded :
    0 ≤ crowdedStart.epsilon ∧ crowdedStart.leavingRow? 0 = some 2 ∧
      crowdedStart.limiting 0 = 3 ∧
      crowdedStart.ratio 0 2 ≤ crowdedStart.ratio 0 1 + (3 - 1 : ℕ) * crowdedStart.epsilon := by
  have hε : 0 ≤ crowdedStart.epsilon := by decide +kernel
  have hrow : crowdedStart.leavingRow? 0 = some 2 := by decide +kernel
  have hlimiting : crowdedStart.limiting 0 = 3 := by decide +kernel
  obtain ⟨-, -, hle⟩ := (leavingRow?_within crowdedStart 0 hε).2.1 2 hrow
  obtain ⟨hwithin, -⟩ := hle 1 (by decide +kernel) (by decide +kernel)
  rw [hlimiting] at hwithin
  exact ⟨hε, hrow, hlimiting, hwithin⟩

/-- The row with the ratio two is taken, although another one limits the column at one and only one
half counts as zero.  After the pivot on it that row has a value further below zero. -/
theorem leavingRow?_exceeds :
    crowded.standardForm (10 ^ 30) = .ok (crowded.converted (10 ^ 30)) ∧
      crowdedStart.epsilon = 1 / 2 ∧ crowdedStart.move = .pivot 0 2 ∧
      crowdedStart.leavingRow? 0 = some 2 ∧
      crowdedStart.epsilon < crowdedStart.row 1 0 ∧
      ¬ crowdedStart.ratio 0 2 ≤ crowdedStart.ratio 0 1 + crowdedStart.epsilon ∧
      (crowdedStart.pivot 0 2).isBasicFeasible = false := by
  decide +kernel

end Tableau
end LinProg
