/-
The first tableau of a proper standard form.

The first basis is made of the columns that the equations offer and of
artificial ones, which are numbered consecutively after the others.  It is
in canonical form and its basic solution is feasible; a solution of the
standard form is a solution of it that is zero at the artificial columns.
-/
import LinProg.Proofs.StandardForm.Basic
import LinProg.Proofs.Tableau.Solutions

namespace LinProg
namespace Tableau

/-! ## The lines -/

/-- The entries of an equation, without those of artificial columns. -/
def paddedEntries (columns : ℕ) (e : Equation ℚ) : List ℚ :=
  e.coefficients ++ List.replicate (columns - e.coefficients.length) 0

/-- The first line of an equation, whose artificial column is given in case it needs one. -/
def startLine (columns artificial : ℕ) (e : Equation ℚ) : Line ℚ :=
  match e.basic with
  | some j => ⟨paddedEntries columns e ++ [e.value], j, j⟩
  | none => ⟨(paddedEntries columns e).set artificial 1 ++ [e.value], artificial, artificial⟩

/-- The artificial column that is next after the first equations of a list. -/
def nextArtificial (first : ℕ) (es : List (Equation ℚ)) (i : ℕ) : ℕ :=
  first + (es.take i).countP fun e => e.basic.isNone

theorem startLines_eq (columns artificial : ℕ) (es : List (Equation ℚ)) (i : ℕ) :
    (startLines columns artificial es)[i]?
      = es[i]?.map (startLine columns (nextArtificial artificial es i)) := by
  induction es generalizing artificial i with
  | nil => simp [startLines]
  | cons e es ih =>
      cases hb : e.basic with
      | some j =>
          cases i with
          | zero => simp [startLines, startLine, hb, paddedEntries]
          | succ i =>
              simp only [startLines, hb, List.getElem?_cons_succ, ih]
              simp [nextArtificial, hb]
      | none =>
          cases i with
          | zero => simp [startLines, startLine, hb, paddedEntries, nextArtificial]
          | succ i =>
              simp only [startLines, hb, List.getElem?_cons_succ, ih]
              simp [nextArtificial, hb, Nat.add_assoc, Nat.add_comm 1]

theorem length_startLines {α : Type} [Scalar α] (columns artificial : ℕ)
    (es : List (Equation α)) : (startLines columns artificial es).length = es.length := by
  induction es generalizing artificial with
  | nil => rfl
  | cons e es ih =>
      rw [startLines]
      split <;> simp [ih]

theorem basic_startLine (columns artificial : ℕ) (e : Equation ℚ) :
    (startLine columns artificial e).basic = e.basic.getD artificial := by
  rw [startLine]
  cases e.basic <;> rfl

theorem unit_startLine (columns artificial : ℕ) (e : Equation ℚ) :
    (startLine columns artificial e).unit = (startLine columns artificial e).basic := by
  rw [startLine]
  cases e.basic <;> rfl

theorem entry_startLine {columns artificial : ℕ} {e : Equation ℚ}
    (hw : e.coefficients.length ≤ columns) (ha : e.basic = none → artificial < columns) (j : ℕ) :
    (startLine columns artificial e).entry j
      = if j = columns then e.value
        else if e.basic = none ∧ artificial = j then 1 else e.coefficients.getD j 0 := by
  have hlen : (paddedEntries columns e).length = columns := by
    simp only [paddedEntries, List.length_append, List.length_replicate]
    omega
  have hpad : (paddedEntries columns e).getD j 0 = e.coefficients.getD j 0 :=
    Dense.getD_append_zeros _ _ _
  rw [Line.entry, startLine]
  cases hb : e.basic with
  | some k =>
      simp only [Dense.getD_append_singleton, hlen, hpad]
      simp
  | none =>
      have ha' : artificial < (paddedEntries columns e).length := by
        rw [hlen]
        exact ha hb
      simp only [Dense.getD_append_singleton, List.length_set, hlen, Dense.getD_set ha', hpad]
      simp

theorem length_entries_startLine {columns artificial : ℕ} {e : Equation ℚ}
    (hw : e.coefficients.length ≤ columns) :
    (startLine columns artificial e).entries.length = columns + 1 := by
  rw [startLine]
  cases e.basic <;> simp [paddedEntries] <;> omega

/-! ## The marks -/

theorem length_foldl_mark {α : Type} (ls : List (Line α)) (b : List Bool) :
    (ls.foldl (fun b l => b.set l.basic true) b).length = b.length := by
  induction ls generalizing b with
  | nil => rfl
  | cons l ls ih => simp [ih]

theorem getD_foldl_mark {α : Type} {ls : List (Line α)} {b : List Bool}
    (h : ∀ l ∈ ls, l.basic < b.length) (j : ℕ) :
    (ls.foldl (fun b l => b.set l.basic true) b).getD j false = true
      ↔ (∃ l ∈ ls, l.basic = j) ∨ b.getD j false = true := by
  induction ls generalizing b with
  | nil => simp
  | cons l ls ih =>
      have hl := h l List.mem_cons_self
      rw [List.foldl_cons, ih (by simpa using fun l' hl' => h l' (List.mem_cons_of_mem _ hl')),
        Dense.getD_set hl]
      by_cases hlj : l.basic = j <;> simp [hlj]

/-! ## The first tableau -/

section Start

variable {f : StandardForm ℚ} {ε : ℚ}

theorem nrColumns_start {α : Type} [Scalar α] {f : StandardForm α} {ε : α} :
    (start f ε).nrColumns = f.nrColumns + f.equations.countP fun e => e.basic.isNone := by
  simp [nrColumns, start, length_foldl_mark]

/-- The columns marked as basic are those that the lines name. -/
theorem isInBasis_start_iff {α : Type} [Scalar α] {f : StandardForm α} {ε : α}
    (h : ∀ l ∈ (start f ε).lines, l.basic < (start f ε).nrColumns) (j : ℕ) :
    (start f ε).isInBasis j = true ↔ ∃ i < (start f ε).nrRows, (start f ε).basis i = j := by
  have hmark : ∀ l ∈ (start f ε).lines,
      l.basic < (List.replicate (start f ε).nrColumns false).length := by
    intro l hl
    rw [List.length_replicate]
    exact h l hl
  have hj := getD_foldl_mark hmark j
  rw [nrColumns_start] at hj
  have hnone : (List.replicate (f.nrColumns + f.equations.countP fun e => e.basic.isNone)
      false).getD j false = false := by
    simp only [List.getD_eq_getElem?_getD, List.getElem?_replicate]
    split <;> rfl
  rw [hnone, Bool.false_eq_true, or_false] at hj
  refine Iff.trans hj ⟨?_, ?_⟩
  · rintro ⟨l, hl, rfl⟩
    obtain ⟨i, hi, rfl⟩ := exists_line hl
    exact ⟨i, hi, rfl⟩
  · rintro ⟨i, hi, rfl⟩
    exact ⟨_, line_mem hi, rfl⟩

theorem nrRows_start : (start f ε).nrRows = f.equations.length := length_startLines _ _ _

theorem firstArtificial_start : (start f ε).firstArtificial = f.nrColumns := rfl

theorem firstArtificial_le_start : (start f ε).firstArtificial ≤ (start f ε).nrColumns := by
  rw [nrColumns_start, firstArtificial_start]
  exact Nat.le_add_right _ _

theorem line_start {i : ℕ} {e : Equation ℚ} (he : f.equations[i]? = some e) :
    (start f ε).line i
      = startLine (start f ε).nrColumns (nextArtificial f.nrColumns f.equations i) e := by
  have hline : (start f ε).lines[i]? = _ := startLines_eq _ _ _ _
  rw [he, Option.map_some] at hline
  rw [line, List.getD_eq_getElem?_getD, hline, Option.getD_some, nrColumns_start]

theorem exists_equation {i : ℕ} (hi : i < (start f ε).nrRows) :
    ∃ e, f.equations[i]? = some e := by
  rw [nrRows_start] at hi
  exact ⟨f.equations[i], List.getElem?_eq_getElem hi⟩

theorem nextArtificial_lt {i : ℕ} {e : Equation ℚ} (he : f.equations[i]? = some e)
    (hb : e.basic = none) :
    nextArtificial f.nrColumns f.equations i < (start f ε).nrColumns := by
  obtain ⟨hi, rfl⟩ := List.getElem?_eq_some_iff.mp he
  rw [nrColumns_start, nextArtificial]
  exact Nat.add_lt_add_left (Dense.countP_take_lt_countP hi (by simp [hb])) _

theorem nextArtificial_inj {i k : ℕ} {e e' : Equation ℚ} (he : f.equations[i]? = some e)
    (he' : f.equations[k]? = some e') (hb : e.basic = none) (hb' : e'.basic = none)
    (h : nextArtificial f.nrColumns f.equations i = nextArtificial f.nrColumns f.equations k) :
    i = k := by
  obtain ⟨hi, rfl⟩ := List.getElem?_eq_some_iff.mp he
  obtain ⟨hk, rfl⟩ := List.getElem?_eq_some_iff.mp he'
  simp only [nextArtificial, Nat.add_left_cancel_iff] at h
  rcases lt_trichotomy i k with hik | hik | hik
  · exact absurd h (Dense.countP_take_lt hi (by simp [hb]) hik).ne
  · exact hik
  · exact absurd h (Dense.countP_take_lt hk (by simp [hb']) hik).ne'

theorem basis_start {i : ℕ} {e : Equation ℚ} (he : f.equations[i]? = some e) :
    (start f ε).basis i = e.basic.getD (nextArtificial f.nrColumns f.equations i) := by
  rw [basis, line_start he, basic_startLine]

theorem unit_start {i : ℕ} (hi : i < (start f ε).nrRows) :
    (start f ε).unit i = (start f ε).basis i := by
  obtain ⟨e, he⟩ := exists_equation hi
  rw [unit, basis, line_start he, unit_startLine]

variable (hf : f.Proper)
include hf

theorem row_start {i : ℕ} {e : Equation ℚ} (he : f.equations[i]? = some e) (j : ℕ) :
    (start f ε).row i j
      = if j = (start f ε).nrColumns then e.value
        else if e.basic = none ∧ nextArtificial f.nrColumns f.equations i = j then 1
        else e.coefficients.getD j 0 := by
  have hw : e.coefficients.length ≤ (start f ε).nrColumns := by
    rw [hf.width e (List.mem_of_getElem? he)]
    exact firstArtificial_le_start
  rw [row, line_start he, entry_startLine hw fun hb => nextArtificial_lt he hb]

theorem row_start_of_lt {i j : ℕ} {e : Equation ℚ} (he : f.equations[i]? = some e)
    (hj : j < f.nrColumns) : (start f ε).row i j = e.coefficients.getD j 0 := by
  have hN : j ≠ (start f ε).nrColumns := (hj.trans_le firstArtificial_le_start).ne
  have ha : ¬ (e.basic = none ∧ nextArtificial f.nrColumns f.equations i = j) := by
    rintro ⟨-, rfl⟩
    exact absurd hj (not_lt.mpr (Nat.le_add_right _ _))
  rw [row_start hf he, if_neg hN, if_neg ha]

theorem basis_start_lt {i : ℕ} (hi : i < (start f ε).nrRows) :
    (start f ε).basis i < (start f ε).nrColumns := by
  obtain ⟨e, he⟩ := exists_equation hi
  rw [basis_start he]
  cases hb : e.basic with
  | some j => exact (hf.basic_lt e (List.mem_of_getElem? he) j hb).trans_le firstArtificial_le_start
  | none => exact nextArtificial_lt he hb

theorem unit_entry_start {i k : ℕ} (hi : i < (start f ε).nrRows) (hk : k < (start f ε).nrRows) :
    (start f ε).row i ((start f ε).basis k) = if i = k then 1 else 0 := by
  obtain ⟨e, he⟩ := exists_equation hi
  obtain ⟨e', he'⟩ := exists_equation hk
  have hlt := basis_start_lt (ε := ε) hf hk
  rw [basis_start he'] at hlt ⊢
  cases hb' : e'.basic with
  | some j =>
      rw [Option.getD_some, row_start_of_lt hf he (hf.basic_lt e' (List.mem_of_getElem? he') j hb')]
      exact hf.unit k i e' e he' he j hb'
  | none =>
      rw [hb', Option.getD_none] at hlt
      rw [Option.getD_none, row_start hf he, if_neg hlt.ne]
      have hzero : e.coefficients.getD (nextArtificial f.nrColumns f.equations k) 0 = 0 := by
        refine Dense.getD_eq_zero ?_
        rw [hf.width e (List.mem_of_getElem? he)]
        exact Nat.le_add_right _ _
      rw [hzero]
      refine if_congr ⟨fun ⟨hb, h⟩ => nextArtificial_inj he he' hb hb' h, ?_⟩ rfl rfl
      rintro rfl
      rw [he, Option.some.injEq] at he'
      exact ⟨he' ▸ hb', rfl⟩

theorem rectangular_start : (start f ε).Rectangular := by
  constructor
  · intro l hl
    obtain ⟨i, hi, rfl⟩ := exists_line hl
    obtain ⟨e, he⟩ := exists_equation hi
    rw [line_start he, length_entries_startLine]
    rw [hf.width e (List.mem_of_getElem? he)]
    exact firstArtificial_le_start
  · rw [nrColumns_start]
    simp [start]

theorem canonical_start : (start f ε).Canonical where
  toRectangular := rectangular_start hf
  unit_entry i hi k hk := unit_entry_start hf hi hk
  inBasis_iff := isInBasis_start_iff <| by
    intro l hl
    obtain ⟨i, hi, rfl⟩ := exists_line hl
    exact basis_start_lt hf hi

theorem value_start_nonneg {i : ℕ} (hi : i < (start f ε).nrRows) :
    0 ≤ (start f ε).row i (start f ε).nrColumns := by
  obtain ⟨e, he⟩ := exists_equation hi
  rw [row_start hf he, if_pos rfl]
  exact hf.nonneg e (List.mem_of_getElem? he)

/-- Besides the terms of its equation a first row has those of its own artificial column, if it
needs one. -/
theorem sum_row_start {i : ℕ} {e : Equation ℚ} (he : f.equations[i]? = some e) (z : ℕ → ℚ) :
    ∑ j ∈ Finset.range (start f ε).nrColumns, (start f ε).row i j * z j
      = ∑ j ∈ Finset.range (start f ε).nrColumns, e.coefficients.getD j 0 * z j
        + if e.basic = none then z (nextArtificial f.nrColumns f.equations i) else 0 := by
  have hterm : ∀ j ∈ Finset.range (start f ε).nrColumns,
      (start f ε).row i j * z j
        = e.coefficients.getD j 0 * z j
          + if e.basic = none ∧ nextArtificial f.nrColumns f.equations i = j then z j else 0 := by
    intro j hj
    rw [row_start hf he, if_neg (Finset.mem_range.mp hj).ne]
    split
    · rename_i hown
      have hzero : e.coefficients.getD j 0 = 0 := by
        refine Dense.getD_eq_zero ?_
        rw [hf.width e (List.mem_of_getElem? he), ← hown.2]
        exact Nat.le_add_right _ _
      rw [hzero, one_mul, zero_mul, zero_add]
    · exact (add_zero _).symm
  rw [Finset.sum_congr rfl hterm, Finset.sum_add_distrib]
  by_cases hb : e.basic = none
  · simp [hb, nextArtificial_lt he hb]
  · simp [hb]

/-- The solutions of the equations are the solutions of the first tableau that are zero at the
artificial columns. -/
theorem solves_start_iff {y : List ℚ} (hy : y.length = f.nrColumns) :
    (start f ε).Solves (fun j => y.getD j 0) ↔ ∀ q ∈ f.equations, q.Holds y := by
  have hrow : ∀ i e, f.equations[i]? = some e →
      ∑ j ∈ Finset.range (start f ε).nrColumns, (start f ε).row i j * y.getD j 0
        = Dense.dot e.coefficients y := by
    intro i e he
    have hw : e.coefficients.length ≤ (start f ε).nrColumns := by
      rw [hf.width e (List.mem_of_getElem? he)]
      exact firstArtificial_le_start
    have hown : y.getD (nextArtificial f.nrColumns f.equations i) 0 = 0 :=
      Dense.getD_eq_zero (hy.trans_le (Nat.le_add_right _ _))
    rw [Dense.dot_eq_sum hw, sum_row_start hf he, hown, ite_self, add_zero]
  constructor
  · intro h q hq
    obtain ⟨i, he⟩ := List.getElem?_of_mem hq
    have hi := h.row i
    rw [hrow i q he, row_start hf he, if_pos rfl] at hi
    exact hi
  · intro h
    refine solves_of_rows ?_
    intro i hi
    obtain ⟨e, he⟩ := exists_equation hi
    rw [hrow i e he, row_start hf he, if_pos rfl]
    exact h e (List.mem_of_getElem? he)

end Start

end Tableau
end LinProg
