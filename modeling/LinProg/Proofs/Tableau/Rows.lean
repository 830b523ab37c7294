/-
The rows of a tableau as vectors, and the space that they span.

A pivot replaces the rows by combinations of them and can be undone, so
the row space is what all tableaux of one descent share.  Everything that
is said later about solutions and prices goes through it: a solution of
the equations is a solution of every vector of the row space, and the
relative costs differ from the costs by a vector of the row space.

Vectors are functions of the column here; the right-hand side is the value
at `nrColumns`, past the columns.
-/
import LinProg.Proofs.Dense
import LinProg.Tableau.Pivot

namespace LinProg
namespace Tableau

section Views

variable {α : Type} [Scalar α]

/-- The line of a row; past the last row it is empty. -/
def line (t : Tableau α) (i : ℕ) : Line α := t.lines.getD i ⟨[], 0, 0⟩

def row (t : Tableau α) (i j : ℕ) : α := (t.line i).entry j

def basis (t : Tableau α) (i : ℕ) : ℕ := (t.line i).basic

def unit (t : Tableau α) (i : ℕ) : ℕ := (t.line i).unit

def costRow (t : Tableau α) (j : ℕ) : α := t.relativeCost j

end Views

section Shapes

variable {α : Type} [Scalar α] {t : Tableau α} {c r : ℕ}

/-! ## What a pivot keeps -/

theorem length_normalize (xs : List α) : (normalize c xs).length = xs.length := by
  simp [normalize]

theorem length_eliminate {xs p : List α} (hlen : xs.length = p.length) :
    (eliminate p c xs).length = xs.length := by
  rw [eliminate]
  split <;> simp [hlen]

@[simp] theorem nrRows_pivot : (t.pivot c r).nrRows = t.nrRows := by
  simp [nrRows, pivot]

@[simp] theorem nrColumns_pivot : (t.pivot c r).nrColumns = t.nrColumns := by
  simp [nrColumns, pivot]

@[simp] theorem firstArtificial_pivot : (t.pivot c r).firstArtificial = t.firstArtificial := rfl

@[simp] theorem enterable_pivot : (t.pivot c r).enterable = t.enterable := rfl

@[simp] theorem epsilon_pivot : (t.pivot c r).epsilon = t.epsilon := rfl

/-! ## The lines by their rows -/

omit [Scalar α] in
theorem line_eq_getElem {i : ℕ} (hi : i < t.lines.length) : t.line i = t.lines[i] :=
  List.getD_eq_getElem _ _ hi

omit [Scalar α] in
theorem line_mem {i : ℕ} (hi : i < t.nrRows) : t.line i ∈ t.lines := by
  rw [line_eq_getElem hi]
  exact List.getElem_mem _

omit [Scalar α] in
theorem exists_line {l : Line α} (hl : l ∈ t.lines) : ∃ i < t.nrRows, t.line i = l := by
  obtain ⟨i, hi, rfl⟩ := List.mem_iff_getElem.mp hl
  exact ⟨i, hi, line_eq_getElem hi⟩

omit [Scalar α] in
theorem lines_eq_map (t : Tableau α) : t.lines = (List.range t.nrRows).map t.line := by
  refine List.ext_getElem (by simp [nrRows]) ?_
  intro i hi _
  rw [List.getElem_map, List.getElem_range, line_eq_getElem hi]

theorem line_pivot {i : ℕ} (hi : i < t.nrRows) :
    (t.pivot c r).line i =
      if i = r then { t.line i with entries := normalize c (t.line r).entries, basic := c }
      else { t.line i with
        entries := eliminate (normalize c (t.line r).entries) c (t.line i).entries } := by
  have hi' : i < (t.pivot c r).nrRows := by simpa using hi
  rw [line_eq_getElem hi', line_eq_getElem hi]
  simp only [pivot, List.getElem_mapIdx]
  rfl

@[simp] theorem unit_pivot (i : ℕ) : (t.pivot c r).unit i = t.unit i := by
  rcases lt_or_ge i t.nrRows with hi | hi
  · rw [unit, unit, line_pivot hi]
    split <;> rfl
  · have hi' : (t.pivot c r).nrRows ≤ i := by simpa using hi
    simp [unit, line, show t.lines.length ≤ i from hi,
      show (t.pivot c r).lines.length ≤ i from hi']

theorem basis_pivot {i : ℕ} (hi : i < t.nrRows) :
    (t.pivot c r).basis i = if i = r then c else t.basis i := by
  rw [basis, line_pivot hi]
  split <;> rfl

end Shapes

variable {t : Tableau ℚ} {c r : ℕ}

theorem row_of_ge {i : ℕ} (hi : t.nrRows ≤ i) : t.row i = 0 := by
  funext j
  simp [row, line, Line.entry, show t.lines.length ≤ i from hi]

/-! ## The list operations of a pivot -/

theorem getD_normalize {xs : List ℚ} (h : xs.getD c 0 ≠ 0) (j : ℕ) :
    (normalize c xs).getD j 0 = xs.getD j 0 / xs.getD c 0 := by
  have hc : c < (xs.map (· / xs.getD c 0)).length := by
    simpa using Dense.lt_length_of_getD_ne_zero h
  rw [normalize, Dense.getD_set hc]
  by_cases hj : c = j
  · subst hj
    rw [if_pos rfl, div_self h]
  · rw [if_neg hj]
    simp only [List.getD_eq_getElem?_getD, List.getElem?_map]
    cases xs[j]? <;> simp

theorem getD_eliminate {xs p : List ℚ} (hlen : xs.length = p.length) (hp : p.getD c 0 = 1)
    (j : ℕ) : (eliminate p c xs).getD j 0 = xs.getD j 0 - xs.getD c 0 * p.getD j 0 := by
  have hc : c < p.length := Dense.lt_length_of_getD_ne_zero (hp ▸ one_ne_zero)
  rw [eliminate]
  by_cases h : xs.getD c 0 = 0
  · rw [if_pos (by simpa using h), h]
    ring
  · have hcz : c < (List.zipWith (fun x y => x - xs.getD c 0 * y) xs p).length := by
      simp [hlen, hc]
    rw [if_neg (by simpa using h), Dense.getD_set hcz]
    by_cases hj : c = j
    · subst hj
      rw [if_pos rfl, hp]
      ring
    · rw [if_neg hj, Dense.getD_zipWith (by ring) hlen]

/-! ## What a pivot changes -/

section Entries

/-- All rows and the relative costs have an entry for every column and one more. -/
structure Rectangular (t : Tableau ℚ) : Prop where
  lines : ∀ l ∈ t.lines, l.entries.length = t.nrColumns + 1
  costs : t.costs.length = t.nrColumns + 1

theorem row_pivot_self (hr : r < t.nrRows) (hc : t.row r c ≠ 0) :
    (t.pivot c r).row r = (t.row r c)⁻¹ • t.row r := by
  funext j
  rw [row, line_pivot hr, if_pos rfl]
  simp only [Line.entry, getD_normalize hc, Pi.smul_apply, smul_eq_mul]
  rw [div_eq_inv_mul]
  rfl

variable (ht : t.Rectangular) (hr : r < t.nrRows)
include ht hr

theorem Rectangular.length_line : (t.line r).entries.length = t.nrColumns + 1 :=
  ht.lines _ (line_mem hr)

theorem rectangular_pivot : (t.pivot c r).Rectangular := by
  constructor
  · intro l hl
    obtain ⟨i, hi, rfl⟩ := exists_line hl
    rw [nrRows_pivot] at hi
    rw [line_pivot hi, nrColumns_pivot]
    split
    · simp [length_normalize, ht.length_line hr]
    · rw [length_eliminate (by rw [length_normalize, ht.length_line hr, ht.length_line hi])]
      exact ht.length_line hi
  · show (eliminate (normalize c (t.line r).entries) c t.costs).length = _
    rw [length_eliminate (by rw [length_normalize, ht.length_line hr, ht.costs]), ht.costs,
      nrColumns_pivot]

variable (hc : t.row r c ≠ 0)
include hc

theorem row_pivot_of_ne {i : ℕ} (hi : i ≠ r) :
    (t.pivot c r).row i = t.row i - (t.row i c / t.row r c) • t.row r := by
  have hp : (normalize c (t.line r).entries).getD c 0 = 1 := by
    rw [getD_normalize hc]
    exact div_self hc
  rcases lt_or_ge i t.nrRows with him | him
  · have hlen : (t.line i).entries.length = (normalize c (t.line r).entries).length := by
      rw [length_normalize, ht.length_line hr, ht.length_line him]
    funext j
    rw [row, line_pivot him, if_neg hi]
    simp only [Line.entry, getD_eliminate hlen hp, getD_normalize hc, Pi.sub_apply,
      Pi.smul_apply, smul_eq_mul, row]
    ring
  · have him' : (t.pivot c r).nrRows ≤ i := by simpa using him
    rw [row_of_ge him, row_of_ge him']
    simp

theorem costRow_pivot :
    (t.pivot c r).costRow = t.costRow - (t.costRow c / t.row r c) • t.row r := by
  have hp : (normalize c (t.line r).entries).getD c 0 = 1 := by
    rw [getD_normalize hc]
    exact div_self hc
  have hlen : t.costs.length = (normalize c (t.line r).entries).length := by
    rw [length_normalize, ht.length_line hr, ht.costs]
  funext j
  show (eliminate (normalize c (t.line r).entries) c t.costs).getD j 0 = _
  simp only [getD_eliminate hlen hp, getD_normalize hc, Pi.sub_apply,
    Pi.smul_apply, smul_eq_mul, row, costRow, relativeCost, Line.entry]
  ring

end Entries

/-! ## The row space -/

/-- The vectors that are combinations of the rows. -/
def rowSpace (t : Tableau ℚ) : Submodule ℚ (ℕ → ℚ) := Submodule.span ℚ (Set.range t.row)

theorem row_mem_rowSpace (i : ℕ) : t.row i ∈ t.rowSpace := Submodule.subset_span ⟨i, rfl⟩

theorem rowSpace_le {V : Submodule ℚ (ℕ → ℚ)} (h : ∀ i < t.nrRows, t.row i ∈ V) :
    t.rowSpace ≤ V := by
  refine Submodule.span_le.mpr ?_
  rintro _ ⟨i, rfl⟩
  rcases lt_or_ge i t.nrRows with hi | hi
  · exact h i hi
  · rw [row_of_ge hi]
    exact V.zero_mem

/-- A pivot keeps the row space: the new rows are combinations of the old ones, and the old ones
of the new ones. -/
theorem rowSpace_pivot (ht : t.Rectangular) (hr : r < t.nrRows) (hc : t.row r c ≠ 0) :
    (t.pivot c r).rowSpace = t.rowSpace := by
  apply le_antisymm
  · refine rowSpace_le ?_
    intro i _
    by_cases hi : i = r
    · subst hi
      rw [row_pivot_self hr hc]
      exact Submodule.smul_mem _ _ (row_mem_rowSpace i)
    · rw [row_pivot_of_ne ht hr hc hi]
      exact Submodule.sub_mem _ (row_mem_rowSpace i)
        (Submodule.smul_mem _ _ (row_mem_rowSpace r))
  · have hself : t.row r = t.row r c • (t.pivot c r).row r := by
      rw [row_pivot_self hr hc, smul_smul, mul_inv_cancel₀ hc, one_smul]
    have hmem : t.row r ∈ (t.pivot c r).rowSpace := by
      rw [hself]
      exact Submodule.smul_mem _ _ (row_mem_rowSpace r)
    refine rowSpace_le ?_
    intro i _
    by_cases hi : i = r
    · subst hi
      exact hmem
    · have hrow : t.row i
          = (t.pivot c r).row i + (t.row i c / t.row r c) • t.row r := by
        rw [row_pivot_of_ne ht hr hc hi, sub_add_cancel]
      rw [hrow]
      exact Submodule.add_mem _ (row_mem_rowSpace i) (Submodule.smul_mem _ _ hmem)

end Tableau
end LinProg
