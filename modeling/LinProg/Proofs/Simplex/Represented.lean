/-
Every tableau of a run represents the equations that the run is about.

The equations are those of the standard form in which each one that offers no
first basic column has got an artificial one of its own.  A tableau says the
same in other words: its lines have the same solutions, its basic columns are
the unit vectors, and setting these to the right-hand sides, none of which is
negative, solves the equations.
-/
import LinProg.Proofs.Simplex.Trail
import LinProg.Proofs.StandardForm.Conversion

namespace LinProg

/-- Whether values of all columns, the artificial ones behind the others, satisfy the lines of a
tableau. -/
def Tableau.Holds (t : Tableau ℚ) (z : List ℚ) : Prop :=
  ∀ l ∈ t.lines, Dense.dot (l.entries.take t.nrColumns) z = t.rightHandSide l

/-- Whether values of all columns, the artificial ones behind the others, satisfy the equations
of a standard form when each without a first basic column has the next artificial column added. -/
def StandardForm.HoldsExtended (f : StandardForm ℚ) (z : List ℚ) : Prop :=
  ∀ i q, f.equations[i]? = some q →
    Dense.dot q.coefficients z
      + (if q.basic = none then z.getD (Tableau.nextArtificial f.nrColumns f.equations i) 0 else 0)
      = q.value

namespace Tableau

variable {f : StandardForm ℚ} {t : Tableau ℚ} {ε : ℚ} {z : List ℚ}

/-! ## The lines and the row space -/

theorem dot_line (t : Tableau ℚ) (i : ℕ) (z : List ℚ) :
    Dense.dot ((t.line i).entries.take t.nrColumns) z
      = ∑ j ∈ Finset.range t.nrColumns, t.row i j * z.getD j 0 := by
  rw [Dense.dot_eq_sum (List.length_take_le _ _)]
  refine Finset.sum_congr rfl ?_
  intro j hj
  have htake : ((t.line i).entries.take t.nrColumns).getD j 0 = t.row i j := by
    rw [List.getD_eq_getElem?_getD, List.getElem?_take_of_lt (Finset.mem_range.mp hj)]
    exact List.getD_eq_getElem?_getD.symm
  rw [htake]

theorem holds_iff_solves : t.Holds z ↔ t.Solves fun j => z.getD j 0 := by
  constructor
  · intro h
    refine solves_of_rows ?_
    intro i hi
    rw [← dot_line]
    exact h _ (line_mem hi)
  · intro h l hl
    obtain ⟨i, -, rfl⟩ := exists_line hl
    rw [dot_line]
    exact h.row i

theorem holds_start_iff (hf : f.Proper) : (start f ε).Holds z ↔ f.HoldsExtended z := by
  have hrow : ∀ i q, f.equations[i]? = some q →
      ∑ j ∈ Finset.range (start f ε).nrColumns, (start f ε).row i j * z.getD j 0
        = Dense.dot q.coefficients z
          + if q.basic = none then z.getD (nextArtificial f.nrColumns f.equations i) 0 else 0 := by
    intro i q hq
    have hwidth : q.coefficients.length ≤ (start f ε).nrColumns := by
      rw [hf.width q (List.mem_of_getElem? hq)]
      exact firstArtificial_le_start
    rw [sum_row_start hf hq, Dense.dot_eq_sum hwidth]
  rw [holds_iff_solves]
  constructor
  · intro h i q hq
    rw [← hrow i q hq, h.row i, row_start hf hq, if_pos rfl]
  · intro h
    refine solves_of_rows ?_
    intro i hi
    obtain ⟨q, hq⟩ := exists_equation hi
    rw [hrow i q hq, h i q hq, row_start hf hq, if_pos rfl]

/-! ## What a tableau represents -/

/-- Values of all columns that a tableau gives by its right-hand sides: those of the basic columns
are the right-hand sides of their rows and the others zero. -/
structure Basic (t : Tableau ℚ) (z : List ℚ) : Prop where
  length : z.length = t.nrColumns
  basic : ∀ i < t.nrRows, z.getD (t.basis i) 0 = t.row i t.nrColumns
  nonbasic : ∀ j, (∀ i < t.nrRows, t.basis i ≠ j) → z.getD j 0 = 0

theorem Canonical.basic_point (ht : t.Canonical) :
    t.Basic ((List.range t.nrColumns).map t.point) where
  length := by rw [List.length_map, List.length_range]
  basic i hi := by
    rw [Dense.getD_map_range t.point (ht.basis_lt hi), point, ht.atBasis_basis _ hi]
  nonbasic j hj := by
    rcases lt_or_ge j t.nrColumns with hjn | hjn
    · rw [Dense.getD_map_range t.point hjn]
      exact atBasis_eq_zero fun i hi hbasis => absurd hbasis (hj i hi)
    · exact Dense.getD_eq_zero (by simpa using hjn)

/-- A tableau that represents the equations of a standard form with a feasible basis. -/
structure Represents (f : StandardForm ℚ) (t : Tableau ℚ) : Prop where
  nrRows : t.nrRows = f.equations.length
  nrColumns : t.nrColumns = f.nrColumns + f.equations.countP fun q => q.basic.isNone
  /-- The lines have the solutions of the equations. -/
  holds_iff : ∀ z : List ℚ, z.length = t.nrColumns → (t.Holds z ↔ f.HoldsExtended z)
  /-- A basic column is zero in every row but the one that it is basic on. -/
  basis_lt : ∀ k < t.nrRows, t.basis k < t.nrColumns
  unit_column : ∀ i < t.nrRows, ∀ k < t.nrRows, t.row i (t.basis k) = if i = k then 1 else 0
  nonneg : ∀ l ∈ t.lines, 0 ≤ t.rightHandSide l
  /-- The basic solution, with the values of the artificial columns behind it, is feasible. -/
  feasible : ∃ z, t.Basic z ∧ z.take f.nrColumns = t.basicSolution ∧ (∀ x ∈ z, 0 ≤ x) ∧
    f.HoldsExtended z

theorem Upheld.represents (ht : Upheld f t) (hf : f.Proper) : t.Represents f where
  nrRows := ht.sameRows.nrRows.trans nrRows_start
  nrColumns := ht.sameRows.nrColumns.trans nrColumns_start
  holds_iff z _ := by
    rw [holds_iff_solves, ht.sameRows.solves_iff, ← holds_iff_solves, holds_start_iff hf]
  basis_lt k hk := ht.basis_lt hk
  unit_column := ht.unit_entry
  nonneg l hl := by
    obtain ⟨i, hi, rfl⟩ := exists_line hl
    exact ht.feasible i hi
  feasible := by
    refine ⟨(List.range t.nrColumns).map t.point, ht.basic_point, ht.take_point, ?_, ?_⟩
    · intro x hx
      obtain ⟨j, -, rfl⟩ := List.mem_map.mp hx
      exact atBasis_nonneg ht.feasible j
    · have htabulate : (fun j => ((List.range t.nrColumns).map t.point).getD j 0) = t.point := by
        refine Dense.getD_tabulate ?_
        intro j hj
        exact atBasis_eq_zero fun i hi hbasis => absurd (ht.basis_lt hi) (hbasis ▸ not_lt.mpr hj)
      rw [← holds_start_iff (ε := 0) hf, holds_iff_solves, ← ht.sameRows.solves_iff, htabulate]
      exact ht.solves_point

end Tableau

/-! ## The runs on models -/

namespace Model

/-- The tableaux that a run on the standard form of a model passes, wherever it is stopped: with
exact arithmetic and without tolerances every one of them represents the equations with a feasible
basis. -/
theorem tableaus_represent {m : Model ℚ} {infinity : ℚ} {f : StandardForm ℚ}
    (h : m.standardForm infinity = .ok f) (control : Control) :
    f.Followed ⟨0, 0⟩ control ∧ ∀ t ∈ f.tableaus ⟨0, 0⟩ control, t.Represents f := by
  have hproper := proper_of_standardForm h
  refine ⟨StandardForm.followed hproper control, ?_⟩
  intro t ht
  exact (StandardForm.upheld_of_mem hproper ht).represents hproper

/-- Two nonnegative variables with the sum two, stated twice, and the first of them two above the
sum of two others, the second of which is to be large. -/
def redundant : Model ℚ where
  sense := .maximize
  cost := [(3, 1)]
  rows :=
    [Row.plain [(0, 1), (1, 1)] .equal 2, Row.plain [(0, 1), (1, 1)] .equal 2,
      Row.plain [(0, 1), (2, -1), (3, -1)] .equal 2]
  columns := List.replicate 4 (Column.nonnegative 1000)

/-- The run passes all kinds of tableaux: the first one with three artificial columns, those around
the pivot that brings their cost to zero, those around the pivot on an entry minus one that takes
one of them out, and those around the pivot of the second phase, with an artificial column on the
row that is stated twice. -/
theorem tableaus_represent_redundant :
    redundant.standardForm 1000 = .ok (redundant.converted 1000) ∧
      ((redundant.converted 1000).tableaus ⟨0, 0⟩ .never).map (fun t => t.lines.map Line.basic)
        = [[4, 5, 6], [4, 5, 6], [0, 5, 6], [0, 5, 6], [0, 5, 1], [0, 5, 1], [0, 5, 3]] ∧
      ∀ t ∈ (redundant.converted 1000).tableaus ⟨0, 0⟩ .never,
        t.Represents (redundant.converted 1000) := by
  have hok : redundant.standardForm 1000 = .ok (redundant.converted 1000) := by decide +kernel
  exact ⟨hok, by decide +kernel, (tableaus_represent hok .never).2⟩

end Model

end LinProg
