/-
The artificial columns that the first phase leaves in the basis.

A row that keeps its artificial column is zero at all other columns, and its
value is zero.  It is a combination of the equations in which these cancel; the
entries in the first unit columns are the factors.  So it says of some
equations that they are combinations of the others, and of which it says so is
read from its entries, not from its place: an artificial column may leave the
basis on one row and come back on another.

Dropping the equations whose artificial columns are left over costs nothing,
and no more can be dropped.
-/
import Mathlib
import LinProg.Proofs.Simplex.Represented
import LinProg.Proofs.StandardForm.Dependent

namespace LinProg

namespace Tableau

/-! ## The rows that are reported -/

section Reported

variable {α : Type} [Scalar α] {t : Tableau α}

/-- The rows that were looked at keep their basic columns from then on. -/
theorem basis_expelOn_of_not_mem {rows : List ℕ} {i : ℕ} (hi : i < t.nrRows) (h : i ∉ rows) :
    (expelOn rows t).1.basis i = t.basis i := by
  induction rows generalizing t with
  | nil => rfl
  | cons row rows ih =>
      have hne : i ≠ row := List.ne_of_not_mem_cons h
      have hrest : i ∉ rows := List.not_mem_of_not_mem_cons h
      rw [expelOn]
      split
      · exact ih hi hrest
      · split
        · exact ih hi hrest
        · split
          · rw [ih (by rwa [nrRows_pivot]) hrest, basis_pivot hi, if_neg hne]
          · exact ih hi hrest

/-- The reported rows are those on which an artificial column is basic in the end. -/
theorem redundant_expelOn {rows : List ℕ} (hrows : rows.Nodup) (hlt : ∀ i ∈ rows, i < t.nrRows) :
    (expelOn rows t).2
      = rows.filter fun i => t.firstArtificial ≤ (expelOn rows t).1.basis i := by
  induction rows generalizing t with
  | nil => rfl
  | cons row rows ih =>
      obtain ⟨hrow, hrows⟩ := List.nodup_cons.mp hrows
      obtain ⟨hlt, hrest⟩ := List.forall_mem_cons.mp hlt
      have hkept := basis_expelOn_of_not_mem hlt hrow
      rw [expelOn]
      split
      · rename_i hnone
        exact absurd hlt (not_lt.mpr (List.getElem?_eq_none_iff.mp hnone))
      · rename_i l hl
        obtain ⟨hline, rfl⟩ := List.getElem?_eq_some_iff.mp hl
        rw [← line_eq_getElem hline]
        split
        · rename_i hstructural
          rw [List.filter_cons_of_neg, ih hrows hrest]
          rw [hkept, decide_eq_true_eq]
          exact not_le.mpr hstructural
        · rename_i hartificial
          split
          · rename_i c hc
            have hentered : (expelOn rows (t.pivot c row)).1.basis row = c := by
              rw [basis_expelOn_of_not_mem (by rwa [nrRows_pivot]) hrow, basis_pivot hlt,
                if_pos rfl]
            rw [List.filter_cons_of_neg, ih hrows (by simpa only [nrRows_pivot] using hrest)]
            · rfl
            · rw [hentered, decide_eq_true_eq]
              exact not_le.mpr (epsilon_lt_of_replacement? hc).1
          · rw [List.filter_cons_of_pos]
            · exact congrArg (row :: ·) (ih hrows hrest)
            · rw [hkept, decide_eq_true_eq]
              exact not_lt.mp hartificial

end Reported

/-! ## Rows as combinations of equations -/

variable {f : StandardForm ℚ} {t : Tableau ℚ}

theorem row_start_eq_augmented (hf : f.Proper) {k : ℕ} (hk : k < f.nrRows) {j : ℕ}
    (hj : j < f.nrColumns) : (start f 0).row k j = f.augmented k j := by
  have hq : f.equations[k]? = some f.equations[k] := List.getElem?_eq_getElem hk
  rw [row_start_of_lt hf hq hj, StandardForm.augmented_eq hf hq, if_neg hj.ne]

theorem value_start_eq_augmented (hf : f.Proper) {k : ℕ} (hk : k < f.nrRows) :
    (start f 0).row k (start f 0).nrColumns = f.augmented k f.nrColumns := by
  have hq : f.equations[k]? = some f.equations[k] := List.getElem?_eq_getElem hk
  rw [row_start hf hq, if_pos rfl, StandardForm.augmented_eq hf hq, if_pos rfl]

theorem augmented_of_gt (hf : f.Proper) {k : ℕ} (hk : k < f.nrRows) {j : ℕ}
    (hj : f.nrColumns < j) : f.augmented k j = 0 := by
  have hq : f.equations[k]? = some f.equations[k] := List.getElem?_eq_getElem hk
  rw [StandardForm.augmented_eq hf hq, if_neg hj.ne']
  refine Dense.getD_eq_zero ?_
  rw [hf.width _ (List.mem_of_getElem? hq)]
  exact hj.le

namespace Restates

variable (ht : Restates f 0 t) (hf : f.Proper)
include ht hf

omit hf in
theorem unit_eq_basis_start {k : ℕ} (hk : k < f.nrRows) : t.unit k = (start f 0).basis k := by
  rw [ht.sameRows.unit, unit_start (hk.trans_eq nrRows_start.symm)]

/-- The entries of a vector of the row space in the first unit columns are the factors by which it
is a combination of the equations. -/
theorem expand_start {w : ℕ → ℚ} (hw : w ∈ t.rowSpace) (j : ℕ) :
    w j = ∑ k ∈ Finset.range f.nrRows, w (t.unit k) * (start f 0).row k j := by
  rw [ht.sameRows.rowSpace] at hw
  have hexpand := (canonical_start hf).expand hw j
  rw [nrRows_start] at hexpand
  rw [hexpand]
  refine Finset.sum_congr rfl ?_
  intro k hk
  rw [ht.unit_eq_basis_start (Finset.mem_range.mp hk)]

theorem sum_augmented_eq_zero {w : ℕ → ℚ} (hw : w ∈ t.rowSpace)
    (hzero : ∀ j < f.nrColumns, w j = 0) (hvalue : w t.nrColumns = 0) :
    ∑ k ∈ Finset.range f.nrRows, w (t.unit k) • f.augmented k = 0 := by
  funext j
  rw [Finset.sum_apply, Pi.zero_apply]
  rcases lt_trichotomy j f.nrColumns with hj | rfl | hj
  · rw [← hzero j hj, ht.expand_start hf hw j]
    refine Finset.sum_congr rfl ?_
    intro k hk
    rw [row_start_eq_augmented hf (Finset.mem_range.mp hk) hj]
    rfl
  · rw [← hvalue, ht.expand_start hf hw t.nrColumns]
    refine Finset.sum_congr rfl ?_
    intro k hk
    rw [ht.sameRows.nrColumns, value_start_eq_augmented hf (Finset.mem_range.mp hk)]
    rfl
  · refine Finset.sum_eq_zero ?_
    intro k hk
    rw [Pi.smul_apply, augmented_of_gt hf (Finset.mem_range.mp hk) hj, smul_zero]

/-- Every combination of the equations is a vector of the row space with its factors in the first
unit columns. -/
theorem exists_combination (factors : ℕ → ℚ) :
    ∃ w ∈ t.rowSpace, (∀ k < f.nrRows, w (t.unit k) = factors k) ∧
      ∀ j < f.nrColumns, w j = (∑ k ∈ Finset.range f.nrRows, factors k • f.augmented k) j := by
  refine ⟨∑ k ∈ Finset.range f.nrRows, factors k • (start f 0).row k, ?_, ?_, ?_⟩
  · rw [ht.sameRows.rowSpace]
    exact Submodule.sum_mem _ fun k _ => Submodule.smul_mem _ _ (row_mem_rowSpace k)
  · intro k hk
    have hk' : k < (start f 0).nrRows := hk.trans_eq nrRows_start.symm
    rw [ht.unit_eq_basis_start hk, Finset.sum_apply, Finset.sum_eq_single k]
    · rw [Pi.smul_apply, (canonical_start hf).row_basis_self hk', smul_eq_mul, mul_one]
    · intro i _ hne
      rw [Pi.smul_apply, (canonical_start hf).row_basis_of_ne hk' hne, smul_zero]
    · intro h
      exact absurd (Finset.mem_range.mpr hk) h
  · intro j hj
    rw [Finset.sum_apply, Finset.sum_apply]
    refine Finset.sum_congr rfl ?_
    intro k hk
    rw [Pi.smul_apply, Pi.smul_apply, row_start_eq_augmented hf (Finset.mem_range.mp hk) hj]

/-- An artificial column that is basic was introduced for an equation. -/
theorem exists_unit_eq_basis {i : ℕ} (hi : i < t.nrRows) (hb : f.nrColumns ≤ t.basis i) :
    ∃ k < f.nrRows, t.unit k = t.basis i := by
  by_contra hnone
  push Not at hnone
  have hlt : t.basis i ≠ (start f 0).nrColumns := by
    rw [← ht.sameRows.nrColumns]
    exact (ht.basis_lt hi).ne
  -- the row has the entry one there, which no equation without this column can bring about
  have hone := ht.expand_start hf (row_mem_rowSpace i) (t.basis i)
  rw [ht.row_basis_self hi, Finset.sum_eq_zero] at hone
  · exact one_ne_zero hone
  · intro k hk
    have hk := Finset.mem_range.mp hk
    have hq : f.equations[k]? = some f.equations[k] := List.getElem?_eq_getElem hk
    have hother : ¬ ((f.equations[k]).basic = none ∧
        nextArtificial f.nrColumns f.equations k = t.basis i) := by
      rintro ⟨hbasic, heq⟩
      refine hnone k hk ?_
      rw [ht.unit_eq_basis_start hk, basis_start hq, hbasic, Option.getD_none, heq]
    rw [row_start hf hq, if_neg hlt, if_neg hother, Dense.getD_eq_zero, mul_zero]
    rw [hf.width _ (List.mem_of_getElem? hq)]
    exact hb

end Restates

/-! ## What the rows that are left over say -/

/-- The equations whose artificial columns are left over in the basis. -/
def superfluous (t : Tableau ℚ) : Set ℕ :=
  {k | ∃ i < t.nrRows, t.firstArtificial ≤ t.basis i ∧ t.unit k = t.basis i}

namespace Restricted

variable (ht : Restricted f t) (hf : f.Proper)
include ht

theorem restates : Restates f 0 t where
  toCanonical := ht.toCanonical
  enterable_le := ht.enterable_le
  sameRows := ht.sameRows

theorem row_eq_zero {i : ℕ} (hi : i < t.nrRows) (hb : t.firstArtificial ≤ t.basis i) {j : ℕ}
    (hj : j < f.nrColumns) : t.row i j = 0 :=
  ht.cleared i hi hb j (hj.trans_eq ht.firstArtificial_eq.symm)

include hf

/-- A row that is left over is a combination of the equations in which these cancel. -/
theorem sum_row_eq_zero {i : ℕ} (hi : i < t.nrRows) (hb : t.firstArtificial ≤ t.basis i) :
    ∑ k ∈ Finset.range f.nrRows, t.row i (t.unit k) • f.augmented k = 0 :=
  ht.restates.sum_augmented_eq_zero hf (row_mem_rowSpace i) (fun _ hj => ht.row_eq_zero hi hb hj)
    (ht.idle i hi hb)

/-- It gives the equation of its artificial column by equations whose artificial columns are not
left over. -/
theorem exists_superfluous {i : ℕ} (hi : i < t.nrRows) (hb : t.firstArtificial ≤ t.basis i) :
    ∃ k < f.nrRows, t.unit k = t.basis i ∧
      f.DependsOn {k | k < f.nrRows ∧ k ∉ t.superfluous} k := by
  obtain ⟨k, hk, hunit⟩ :=
    ht.restates.exists_unit_eq_basis hf hi (ht.firstArtificial_eq.symm.trans_le hb)
  refine ⟨k, hk, hunit, ?_⟩
  refine StandardForm.dependsOn_of_sum hk ?_ ?_ (ht.sum_row_eq_zero hf hi hb)
  · rw [hunit, ht.row_basis_self hi]
    exact one_ne_zero
  · intro k' hk' hne hfactor
    refine ⟨hk', ?_⟩
    rintro ⟨r, hr, -, heq⟩
    -- of the artificial columns that are left over the row has only its own
    obtain rfl : i = r := by
      by_contra hir
      rw [heq, ht.row_basis_of_ne hr hir] at hfactor
      exact hfactor rfl
    have hstart : ∀ k < f.nrRows, k < (start f 0).nrRows := fun k hk =>
      hk.trans_eq nrRows_start.symm
    refine hne ((canonical_start hf).basis_inj (hstart k' hk') (hstart k hk) ?_)
    rw [← ht.restates.unit_eq_basis_start hk', ← ht.restates.unit_eq_basis_start hk, heq, hunit]

/-- What a combination of the equations that cancels looks like at the rows: only those that are
left over take part in it. -/
theorem factor_eq {factors : ℕ → ℚ}
    (h : ∑ k ∈ Finset.range f.nrRows, factors k • f.augmented k = 0) {k : ℕ} (hk : k < f.nrRows) :
    ∃ w : ℕ → ℚ, (∀ k < f.nrRows, w (t.unit k) = factors k) ∧
      factors k = ∑ i ∈ Finset.range t.nrRows,
        if t.firstArtificial ≤ t.basis i then w (t.basis i) * t.row i (t.unit k) else 0 := by
  obtain ⟨w, hw, hunit, hzero⟩ := ht.restates.exists_combination hf factors
  refine ⟨w, hunit, ?_⟩
  rw [← hunit k hk, ht.expand hw]
  refine Finset.sum_congr rfl ?_
  intro i _
  split
  · rfl
  · rename_i hb
    have hlt : t.basis i < f.nrColumns := (not_le.mp hb).trans_eq ht.firstArtificial_eq
    rw [hzero _ hlt, h, Pi.zero_apply, zero_mul]

/-- An equation is a combination of the others just if a row that is left over has an entry in its
first unit column. -/
theorem dependsOn_others_iff {k : ℕ} (hk : k < f.nrRows) :
    f.DependsOn (f.others k) k ↔
      ∃ i < t.nrRows, t.firstArtificial ≤ t.basis i ∧ t.row i (t.unit k) ≠ 0 := by
  constructor
  · intro h
    obtain ⟨factors, hne, hsum⟩ := StandardForm.DependsOn.exists_sum hk h
    obtain ⟨w, -, hfactor⟩ := ht.factor_eq hf hsum hk
    by_contra hnone
    push Not at hnone
    refine hne (hfactor.trans (Finset.sum_eq_zero ?_))
    intro i hi
    split
    · rename_i hb
      rw [hnone i (Finset.mem_range.mp hi) hb, mul_zero]
    · rfl
  · rintro ⟨i, hi, hb, hne⟩
    exact StandardForm.dependsOn_of_sum hk hne (fun k' hk' hkk _ => ⟨hk', hkk⟩)
      (ht.sum_row_eq_zero hf hi hb)

/-- The equations that are not superfluous are independent. -/
theorem linearIndepOn_not_superfluous :
    LinearIndepOn ℚ f.augmented {k | k < f.nrRows ∧ k ∉ t.superfluous} := by
  rw [linearIndepOn_iff]
  intro l hl hsum
  rw [Finsupp.mem_supported] at hl
  rw [← StandardForm.sum_augmented_eq fun k hk => (hl hk).1] at hsum
  have houtside : ∀ k ∈ t.superfluous, l k = 0 := by
    intro k hk
    by_contra hne
    exact (hl (Finsupp.mem_support_iff.mpr hne)).2 hk
  ext k
  rw [Finsupp.coe_zero, Pi.zero_apply]
  by_contra hne
  have hk : k < f.nrRows := (hl (Finsupp.mem_support_iff.mpr hne)).1
  obtain ⟨w, hunit, hfactor⟩ := ht.factor_eq hf hsum hk
  refine hne (hfactor.trans (Finset.sum_eq_zero ?_))
  intro i hi
  have hi := Finset.mem_range.mp hi
  split
  · rename_i hb
    obtain ⟨k', hk', hunit'⟩ :=
      ht.restates.exists_unit_eq_basis hf hi (ht.firstArtificial_eq.symm.trans_le hb)
    rw [← hunit', hunit k' hk', houtside k' ⟨i, hi, hb, hunit'⟩, zero_mul]
  · rfl

end Restricted

/-! ## The second phase -/

/-- The same artificial columns are basic on two tableaux, and their rows are the same. -/
structure SameArtificial (t t' : Tableau ℚ) : Prop where
  iff : ∀ i < t.nrRows, t'.firstArtificial ≤ t'.basis i ↔ t.firstArtificial ≤ t.basis i
  basis : ∀ i < t.nrRows, t.firstArtificial ≤ t.basis i → t'.basis i = t.basis i
  row : ∀ i < t.nrRows, t.firstArtificial ≤ t.basis i → t'.row i = t.row i

variable {t' : Tableau ℚ} {c r : ℕ}

/-- A move of the second phase is to a column that is not artificial, and on another row than those
that are left over. -/
theorem Restricted.of_move (ht : Restricted f t) (h : t.move = .pivot c r) :
    c < f.nrColumns ∧ ¬ t.firstArtificial ≤ t.basis r := by
  have hch := chosen_of_move ht.exact h
  have hc : c < f.nrColumns :=
    (hch.lt_enterable.trans_eq ht.enterable_eq).trans_eq ht.firstArtificial_eq
  refine ⟨hc, fun hb => ?_⟩
  have hentry := hch.entry_pos
  rw [ht.row_eq_zero hch.lt_nrRows hb hc] at hentry
  exact lt_irrefl _ hentry

theorem Restricted.sameArtificial_pivot (ht : Restricted f t) (h : t.move = .pivot c r) :
    SameArtificial t (t.pivot c r) := by
  obtain ⟨hc, hr⟩ := ht.of_move h
  have hch := chosen_of_move ht.exact h
  have hcF : c < t.firstArtificial := hc.trans_eq ht.firstArtificial_eq.symm
  have hother : ∀ i, t.firstArtificial ≤ t.basis i → i ≠ r := by
    rintro i hb rfl
    exact hr hb
  refine ⟨?_, ?_, ?_⟩
  · intro i hi
    rw [firstArtificial_pivot, basis_pivot hi]
    by_cases hir : i = r
    · rw [if_pos hir, hir]
      exact iff_of_false (not_le.mpr hcF) hr
    · rw [if_neg hir]
  · intro i hi hb
    rw [basis_pivot hi, if_neg (hother i hb)]
  · intro i hi hb
    exact (ht.cleared i hi).row_pivot ht.toRectangular hch.lt_nrRows hch.entry_pos.ne' hcF
      (hother i hb) hb

theorem Restricted.sameArtificial (ht : Restricted f t) (h : Reaches t t') :
    SameArtificial t t' := by
  induction h with
  | refl => exact ⟨fun _ _ => Iff.rfl, fun _ _ _ => rfl, fun _ _ _ => rfl⟩
  | tail hreach hstep ih =>
      obtain ⟨c, r, hmove, rfl⟩ := hstep
      have hu := ht.of_reaches hreach
      have hrows := (Reaches.follows hreach ht.toReady).nrRows
      have hnext := hu.sameArtificial_pivot hmove
      refine ⟨?_, ?_, ?_⟩
      · intro i hi
        exact (hnext.iff i (hi.trans_eq hrows.symm)).trans (ih.iff i hi)
      · intro i hi hb
        rw [hnext.basis i (hi.trans_eq hrows.symm) ((ih.iff i hi).mpr hb), ih.basis i hi hb]
      · intro i hi hb
        rw [hnext.row i (hi.trans_eq hrows.symm) ((ih.iff i hi).mpr hb), ih.row i hi hb]

end Tableau

/-! ## A run -/

namespace StandardForm

def handed (control : Control) (f : StandardForm ℚ) : Tableau ℚ :=
  ((Tableau.start f 0).firstPhase 0 control).tableau

/-- What becomes of the artificial columns that the first phase leaves in the basis, on the rows
that it reports. -/
structure LeftOver (control : Control) (f : StandardForm ℚ) (rows : List ℕ) : Prop where
  /-- Taking artificial columns out of the basis changes no value. -/
  values : ∀ t ∈ f.removalTrail ⟨0, 0⟩ control,
    t.basicSolution = (f.opening ⟨0, 0⟩ control).tableau.basicSolution
  /-- The rows that are reported are those with an artificial column. -/
  reported : rows = (List.range f.nrRows).filter fun i => f.nrColumns ≤ (f.handed control).basis i
  zero : ∀ i ∈ rows, ∀ j < f.nrColumns, (f.handed control).row i j = 0
  value_zero : ∀ i ∈ rows, (f.handed control).row i (f.handed control).nrColumns = 0
  /-- Each of these columns was introduced for an equation, and this one is a combination of those
  for which no artificial column is left over. -/
  superfluous : ∀ i ∈ rows, ∃ k < f.nrRows, (f.handed control).unit k = (f.handed control).basis i ∧
    f.DependsOn {k | k < f.nrRows ∧ k ∉ (f.handed control).superfluous} k
  /-- Those are independent, so that no more can be dropped. -/
  independent : LinearIndepOn ℚ f.augmented {k | k < f.nrRows ∧ k ∉ (f.handed control).superfluous}
  /-- An equation is a combination of the others just if its first unit column has an entry on a
  row that is reported. -/
  dependsOn_iff : ∀ k < f.nrRows,
    f.DependsOn (f.others k) k ↔
      ∃ i ∈ rows, (f.handed control).row i ((f.handed control).unit k) ≠ 0
  /-- The second phase does not touch these rows, and lets no artificial column in. -/
  second : ∀ t ∈ f.secondTrail ⟨0, 0⟩ control,
    (∀ i ∈ rows, t.basis i = (f.handed control).basis i ∧ (∀ j < f.nrColumns, t.row i j = 0) ∧
      t.row i t.nrColumns = 0) ∧
    ∀ c r, t.move = .pivot c r → r ∉ rows ∧ c < f.nrColumns

variable {f : StandardForm ℚ} {control : Control} {rows : List ℕ}

theorem reported_eq (hf : f.Proper)
    (hok : ((Tableau.start f 0).firstPhase 0 control).result = .ok rows) :
    rows = (List.range f.nrRows).filter fun i => f.nrColumns ≤ (f.handed control).basis i := by
  rw [handed]
  rcases Tableau.firstPhase_cases hf control with
    ⟨hnone, hresult, htableau⟩ | ⟨why, hwhy⟩ | ⟨d, hd, -, herror | hsettled⟩
  · rw [hresult] at hok
    obtain rfl := Except.ok.inj hok
    rw [htableau]
    refine (List.filter_eq_nil_iff.mpr ?_).symm
    intro i hi
    have hi : i < (Tableau.start f 0).nrRows :=
      (List.mem_range.mp hi).trans_eq Tableau.nrRows_start.symm
    rw [decide_eq_true_eq, not_le]
    exact (Tableau.basis_start_lt hf hi).trans_eq hnone
  · rw [hwhy] at hok
    cases hok
  · rw [herror.2] at hok
    cases hok
  · obtain ⟨-, hresult, htableau⟩ := hsettled
    rw [hresult] at hok
    obtain rfl := Except.ok.inj hok
    have hrows : d.nrRows = f.nrRows := hd.sameRows.nrRows.trans Tableau.nrRows_start
    rw [htableau, ← hrows, ← hd.firstArtificial_eq]
    exact Tableau.redundant_expelOn List.nodup_range fun i hi => List.mem_range.mp hi

/-- The rows that are reported, of the tableau from which the second phase descends. -/
theorem mem_reported_iff (hf : f.Proper)
    (hok : ((Tableau.start f 0).firstPhase 0 control).result = .ok rows) {i : ℕ} :
    i ∈ rows ↔ i < (f.handed control).nrRows ∧
      (f.handed control).firstArtificial ≤ (f.handed control).basis i := by
  have hrestricted := Tableau.firstPhase_ok hf hok
  have hrows : (f.handed control).nrRows = f.nrRows :=
    hrestricted.sameRows.nrRows.trans Tableau.nrRows_start
  have hfirst : (f.handed control).firstArtificial = f.nrColumns := hrestricted.firstArtificial_eq
  rw [reported_eq hf hok, List.mem_filter, List.mem_range, decide_eq_true_eq, hrows, hfirst]

theorem basicSolution_of_mem_removalTrail (hf : f.Proper) {t : Tableau ℚ}
    (h : t ∈ f.removalTrail ⟨0, 0⟩ control) :
    t.basicSolution = (f.opening ⟨0, 0⟩ control).tableau.basicSolution := by
  obtain ⟨hd, -, -, hexpelled⟩ := expelled_of_mem hf h
  rw [hexpelled.canonical.basicSolution_eq, hd.basicSolution_eq, hexpelled.point,
    hexpelled.sameRows.firstArtificial]

theorem leftOver (hf : f.Proper)
    (hok : ((Tableau.start f 0).firstPhase 0 control).result = .ok rows) :
    f.LeftOver control rows := by
  have hrestricted := Tableau.firstPhase_ok hf hok
  have hmem := @mem_reported_iff f control rows hf hok
  refine ⟨?_, reported_eq hf hok, ?_, ?_, ?_, ?_, ?_, ?_⟩
  · intro t ht
    exact basicSolution_of_mem_removalTrail hf ht
  · intro i hi j hj
    obtain ⟨hlt, hb⟩ := hmem.mp hi
    exact hrestricted.row_eq_zero hlt hb hj
  · intro i hi
    obtain ⟨hlt, hb⟩ := hmem.mp hi
    exact hrestricted.idle i hlt hb
  · intro i hi
    obtain ⟨hlt, hb⟩ := hmem.mp hi
    exact hrestricted.exists_superfluous hf hlt hb
  · exact hrestricted.linearIndepOn_not_superfluous hf
  · intro k hk
    rw [hrestricted.dependsOn_others_iff hf hk]
    constructor
    · rintro ⟨i, hlt, hb, hne⟩
      exact ⟨i, hmem.mpr ⟨hlt, hb⟩, hne⟩
    · rintro ⟨i, hi, hne⟩
      obtain ⟨hlt, hb⟩ := hmem.mp hi
      exact ⟨i, hlt, hb, hne⟩
  · intro t ht
    obtain ⟨-, hreach⟩ := reaches_of_mem_secondTrail ht
    have hsame := hrestricted.sameArtificial hreach
    have hlast := hrestricted.of_reaches hreach
    have hrows := (hreach.follows hrestricted.toReady).nrRows
    constructor
    · intro i hi
      obtain ⟨hlt, hb⟩ := hmem.mp hi
      have hlt' := hlt.trans_eq hrows.symm
      have hb' := (hsame.iff i hlt).mpr hb
      exact ⟨hsame.basis i hlt hb, fun j hj => hlast.row_eq_zero hlt' hb' hj,
        hlast.idle i hlt' hb'⟩
    · intro c r hmove
      obtain ⟨hc, hr⟩ := hlast.of_move hmove
      refine ⟨fun hmemr => ?_, hc⟩
      obtain ⟨hlt, hb⟩ := hmem.mp hmemr
      exact hr ((hsame.iff r hlt).mpr hb)

end StandardForm

namespace Model

/-- What the first phase reports about a standard form of a model for which it finds a solution,
with exact arithmetic and without tolerances: the rows with an artificial column.  These are zero
for good, and say which equations are combinations of the others. -/
theorem artificial_leftOver {m : Model ℚ} {infinity : ℚ} {f : StandardForm ℚ}
    (h : m.standardForm infinity = .ok f) {control : Control} {rows : List ℕ}
    (hok : ((Tableau.start f 0).firstPhase 0 control).result = .ok rows) :
    f.LeftOver control rows :=
  StandardForm.leftOver (proper_of_standardForm h) hok

/-- The row with index one states the first equation again, and it keeps its artificial column. -/
theorem artificial_leftOver_redundant :
    redundant.standardForm 1000 = .ok (redundant.converted 1000) ∧
      ((Tableau.start (redundant.converted 1000) 0).firstPhase 0 .never).result = .ok [1] ∧
      (redundant.converted 1000).LeftOver .never [1] := by
  have hok : redundant.standardForm 1000 = .ok (redundant.converted 1000) := by decide +kernel
  have hresult : ((Tableau.start (redundant.converted 1000) 0).firstPhase 0 .never).result
      = .ok [1] := by decide +kernel
  exact ⟨hok, hresult, artificial_leftOver hok hresult⟩

/-- Four equations, of which the first two are the same and the last one says twice the first
variable. -/
def repeated : Model ℚ where
  sense := .minimize
  cost := []
  rows :=
    [Row.plain [(0, -1), (1, 1)] .equal 0, Row.plain [(0, -1), (1, 1)] .equal 0,
      Row.plain [(0, -1), (1, 2), (2, 1)] .equal 0, Row.plain [(0, 2)] .equal 0]
  columns := List.replicate 3 (Column.nonnegative (10 ^ 30))

/-- The row with index three is reported, although the last equation is no combination of the
others: the artificial column that is left over there is the one of the first equation, which had
left the basis and came back. -/
theorem reported_not_dependsOn :
    repeated.standardForm (10 ^ 30) = .ok (repeated.converted (10 ^ 30)) ∧
      (repeated.converted (10 ^ 30)).pivots ⟨0, 0⟩ .never = [(1, 0), (0, 2), (3, 3), (2, 1)] ∧
      ((Tableau.start (repeated.converted (10 ^ 30)) 0).firstPhase 0 .never).result = .ok [3] ∧
      ¬ (repeated.converted (10 ^ 30)).DependsOn ((repeated.converted (10 ^ 30)).others 3) 3 ∧
      (repeated.converted (10 ^ 30)).DependsOn ((repeated.converted (10 ^ 30)).others 0) 0 := by
  have hok : repeated.standardForm (10 ^ 30) = .ok (repeated.converted (10 ^ 30)) := by
    decide +kernel
  have hresult : ((Tableau.start (repeated.converted (10 ^ 30)) 0).firstPhase 0 .never).result
      = .ok [3] := by decide +kernel
  have hproper := proper_of_standardForm hok
  have hrestricted := Tableau.firstPhase_ok hproper hresult
  refine ⟨hok, by decide +kernel, hresult, ?_, ?_⟩
  · rw [hrestricted.dependsOn_others_iff hproper (by decide +kernel)]
    decide +kernel
  · rw [hrestricted.dependsOn_others_iff hproper (by decide +kernel)]
    decide +kernel

end Model
end LinProg
