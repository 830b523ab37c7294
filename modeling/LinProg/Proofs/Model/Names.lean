/-
Names do not matter.

Two models that differ in the names of their rows and columns only have the
same coefficients at the same places and the same standard form.
-/
import LinProg.Proofs.Dense
import LinProg.StandardForm.OfModel

namespace LinProg

variable {α : Type}

def Row.unnamed (r : Row α) : Row α := { r with name := none }

def Column.unnamed (c : Column α) : Column α := { c with name := none }

namespace Model

def unnamed (m : Model α) : Model α :=
  { m with rows := m.rows.map Row.unnamed, columns := m.columns.map Column.unnamed }

/-- Models with the same coefficients at the same places. -/
structure SameMatrix (m m' : Model α) : Prop where
  cost : m'.cost = m.cost
  rows : m'.rows.map Row.coefficients = m.rows.map Row.coefficients
  columns : m'.nrColumns = m.nrColumns

variable {m m' : Model α}

theorem SameMatrix.refl (m : Model α) : SameMatrix m m := ⟨rfl, rfl, rfl⟩

theorem SameMatrix.nrRows_eq (h : SameMatrix m m') : m'.nrRows = m.nrRows := by
  have hlength := congrArg List.length h.rows
  rw [List.length_map, List.length_map] at hlength
  exact hlength

theorem sameMatrix_modifyRow {f : Row α → Row α} (hf : ∀ r, (f r).coefficients = r.coefficients)
    (m : Model α) (i : ℕ) : SameMatrix m { m with rows := m.rows.modify i f } :=
  ⟨rfl, Dense.map_modify hf m.rows i, rfl⟩

theorem sameMatrix_columns (m : Model α) {columns : List (Column α)}
    (h : columns.length = m.columns.length) : SameMatrix m { m with columns } :=
  ⟨rfl, rfl, h⟩

theorem SameMatrix.of_unnamed (h : m'.unnamed = m.unnamed) : SameMatrix m m' := by
  have hcost : m'.unnamed.cost = m.unnamed.cost := congrArg Model.cost h
  have hrows := congrArg (fun m : Model α => m.rows.map Row.coefficients) h
  have hcolumns := congrArg (fun m : Model α => m.columns.length) h
  simp only [unnamed, List.map_map, List.length_map] at hrows hcolumns
  exact ⟨hcost, hrows, hcolumns⟩

theorem unnamed_modifyRow {f : Row α → Row α} (hf : ∀ r, (f r).unnamed = r.unnamed)
    (m : Model α) (i : ℕ) : unnamed { m with rows := m.rows.modify i f } = m.unnamed :=
  congrArg (fun rows => { m.unnamed with rows }) (Dense.map_modify hf m.rows i)

theorem unnamed_modifyColumn {f : Column α → Column α} (hf : ∀ c, (f c).unnamed = c.unnamed)
    (m : Model α) (j : ℕ) : unnamed { m with columns := m.columns.modify j f } = m.unnamed :=
  congrArg (fun columns => { m.unnamed with columns }) (Dense.map_modify hf m.columns j)

/-! ## The standard form -/

variable [Scalar α]

theorem substitutionsFrom_unnamed (infinity : α) (next : ℕ) (cs : List (Column α)) :
    substitutionsFrom infinity next (cs.map Column.unnamed)
      = substitutionsFrom infinity next cs := by
  induction cs generalizing next with
  | nil => rfl
  | cons c cs ih => exact congrArg (c.substitution infinity next :: ·) (ih _)

theorem boundRowsFrom_unnamed (infinity : α) (next : ℕ) (cs : List (Column α)) :
    boundRowsFrom infinity next (cs.map Column.unnamed) = boundRowsFrom infinity next cs := by
  induction cs generalizing next with
  | nil => rfl
  | cons c cs ih => exact congrArg ((c.boundRow? infinity next).toList ++ ·) (ih _)

theorem rowsFrom?_unnamed (infinity : α) (subs : List (Substitution α)) (index : ℕ)
    (rows : List (Row α)) :
    rowsFrom? infinity subs index (rows.map Row.unnamed) = rowsFrom? infinity subs index rows := by
  induction rows generalizing index with
  | nil => rfl
  | cons r rows ih =>
      have hrow : r.unnamed.pending? infinity subs index = r.pending? infinity subs index := rfl
      rw [List.map_cons, rowsFrom?, rowsFrom?, hrow, ih]

theorem standardForm_unnamed (infinity : α) (m : Model α) :
    m.unnamed.standardForm infinity = m.standardForm infinity := by
  rw [standardForm, standardForm]
  simp only [unnamed, substitutionsFrom_unnamed, rowsFrom?_unnamed, boundRowsFrom_unnamed]
  rfl

theorem standardForm_eq_of_unnamed (h : m'.unnamed = m.unnamed) (infinity : α) :
    m'.standardForm infinity = m.standardForm infinity := by
  rw [← standardForm_unnamed infinity m', h, standardForm_unnamed]

end Model
end LinProg
