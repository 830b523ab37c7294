/-
How engines store their models.

An engine checks the columns that an edit names before it writes
anything.  So every model that an engine comes to hold has its vectors in
the stored form and no coefficient of a column that is not there, whatever
was tried on the way.
-/
import LinProg.Proofs.StandardForm.Conversion
import LinProg.Proofs.Engine.Forms

namespace LinProg
namespace Engine

variable {α : Type} [Scalar α] {e e' : Engine α} {row column : ℕ} {l : Listing α}

/-! ## The matrix -/

theorem canonical_readRow? {v : Sparse α} (h : e.readRow? l = some v) :
    v.Canonical e.model.nrColumns := by
  refine Listing.canonical_read? h ?_
  intro i hfirst hlast
  have hlast : i ≤ e.model.nrColumns := hlast
  omega

theorem canonical_appendConstraint? (he : e.model.Canonical) {relation : Relation} {b : α}
    (h : e.appendConstraint? l relation b = some e') : e'.model.Canonical := by
  obtain ⟨v, hv, rfl⟩ := of_appendConstraint? h
  exact he.pushRow (canonical_readRow? hv)

theorem canonical_setRow? (he : e.model.Canonical) (h : e.setRow? row l = some e') :
    e'.model.Canonical := by
  obtain ⟨-, i, v, -, -, hv, rfl⟩ := of_setRow? h
  exact he.modifyRow i fun _ _ => canonical_readRow? hv

theorem canonical_setObjective? (he : e.model.Canonical) (h : e.setObjective? l = some e') :
    e'.model.Canonical := by
  obtain ⟨v, hv, rfl⟩ := of_setObjective? h
  exact ⟨canonical_readRow? hv, he.rows⟩

theorem canonical_appendColumn? (he : e.model.Canonical) (h : e.appendColumn? l = some e') :
    e'.model.Canonical := by
  obtain ⟨-, cost, values, -, rfl⟩ := of_appendColumn? h
  exact he.pushColumn cost values _

theorem canonical_setColumn? (he : e.model.Canonical) (h : e.setColumn? column l = some e') :
    e'.model.Canonical := by
  obtain ⟨-, j, cost, values, -, hj, -, rfl⟩ := of_setColumn? h
  exact he.setColumn hj cost values

theorem canonical_deleteColumn? (he : e.model.Canonical)
    (h : e.deleteColumn? column = some e') : e'.model.Canonical := by
  obtain ⟨-, j, -, hj, rfl⟩ := of_deleteColumn? h
  exact he.deleteColumn hj

theorem canonical_deleteConstraint? (he : e.model.Canonical)
    (h : e.deleteConstraint? row = some e') : e'.model.Canonical := by
  obtain ⟨-, i, -, -, rfl⟩ := of_deleteConstraint? h
  exact he.deleteRow i

theorem canonical_setElement? (he : e.model.Canonical) {x : α}
    (h : e.setElement? row column x = some e') : e'.model.Canonical := by
  obtain ⟨-, j, m, -, hj, hm, rfl⟩ := of_setElement? h
  exact he.setElement? hj hm

/-! ## Attributes -/

theorem canonical_editRow? (he : e.model.Canonical) {f : Row α → Row α}
    (h : e.editRow? row f = some e')
    (hf : ∀ r : Row α, (f r).coefficients = r.coefficients) : e'.model.Canonical := by
  obtain ⟨i, -, -, rfl⟩ := of_editRow? h
  refine he.modifyRow i ?_
  intro r hr
  rw [hf]
  exact hr

theorem canonical_setRightHandSides? (he : e.model.Canonical) {values : List α}
    (h : e.setRightHandSides? values = some e') : e'.model.Canonical := by
  rcases of_setRightHandSides? h with ⟨-, rfl⟩ | ⟨-, rows, hrows, rfl⟩
  · exact he
  · exact he.of_coefficients_eq hrows

theorem canonical_setBounds? (he : e.model.Canonical) {lower upper : α}
    (h : e.setBounds? column lower upper = some e') : e'.model.Canonical := by
  obtain ⟨-, j, -, -, rfl⟩ := of_setBounds? h
  exact he.modifyColumn j _

theorem canonical_setRowName? (he : e.model.Canonical) {name : String}
    (h : e.setRowName? row name = some e') : e'.model.Canonical := by
  obtain ⟨i, -, -, rfl⟩ := of_setRowName? h
  exact he.modifyRow i fun _ hr => hr

theorem canonical_setColumnName? (he : e.model.Canonical) {name : String}
    (h : e.setColumnName? column name = some e') : e'.model.Canonical := by
  obtain ⟨j, -, -, rfl⟩ := of_setColumnName? h
  exact he.modifyColumn j _

theorem canonical_setRowMode? (he : e.model.Canonical) {enabled : Bool}
    (h : e.setRowMode? enabled = some e') : e'.model.Canonical := by
  obtain ⟨-, rfl⟩ := of_setRowMode? h
  exact he

theorem canonical_setSense (he : e.model.Canonical) (sense : Sense) :
    (e.setSense sense).model.Canonical := by
  rw [setSense]
  split
  · exact he
  · exact ⟨he.cost, he.rows⟩

theorem canonical_setInfinity (he : e.model.Canonical) (infinity : α) :
    (e.setInfinity infinity).model.Canonical :=
  he.of_length_eq (List.length_map _)

theorem canonical_solve (he : e.model.Canonical) (clock : Clock) :
    (e.solve clock).model.Canonical := by
  rw [solve]
  split
  · exact he
  · exact he

/-! ## All edits -/

theorem canonical_result? (he : e.model.Canonical) {edit : Edit α}
    (h : edit.result? e = some e') : e'.model.Canonical := by
  obtain ⟨d, -, hdirect, h⟩ := Edit.exists_direct h
  cases hdirect with
  | appendConstraint l relation b => exact canonical_appendConstraint? he h
  | setRow row l => exact canonical_setRow? he h
  | setObjective l => exact canonical_setObjective? he h
  | appendColumn l => exact canonical_appendColumn? he h
  | setColumn column l => exact canonical_setColumn? he h
  | deleteColumn column => exact canonical_deleteColumn? he h
  | deleteConstraint row => exact canonical_deleteConstraint? he h
  | setElement row column x => exact canonical_setElement? he h
  | setRightHandSide row x => exact canonical_editRow? he h fun _ => rfl
  | setRightHandSides values => exact canonical_setRightHandSides? he h
  | setRelation row relation => exact canonical_editRow? he h fun _ => rfl
  | setRange row width => exact canonical_editRow? he h fun _ => rfl
  | setBounds column lower upper => exact canonical_setBounds? he h
  | setRowName row name => exact canonical_setRowName? he h
  | setColumnName column name => exact canonical_setColumnName? he h
  | setTitle name =>
      cases h
      exact he
  | setRowMode enabled => exact canonical_setRowMode? he h
  | setSense sense =>
      cases h
      exact canonical_setSense he sense
  | setInfinity infinity =>
      cases h
      exact canonical_setInfinity he infinity
  | setConfig config =>
      cases h
      exact canonical_setInfinity he config.infinity
  | setAbort answer =>
      cases h
      exact he
  | clearAbort =>
      cases h
      exact he
  | solve clock =>
      cases h
      exact canonical_solve he clock

theorem canonical_perform (he : e.model.Canonical) (edit : Edit α) :
    (e.perform edit).2.model.Canonical := by
  rw [perform]
  split
  · rename_i d hd
    exact canonical_result? he hd
  · exact he

theorem canonical_performAll (he : e.model.Canonical) (edits : List (Edit α)) :
    (e.performAll edits).model.Canonical := by
  induction edits generalizing e with
  | nil => exact he
  | cons edit edits ih => exact ih (canonical_perform he edit)

/-- Whatever is tried on a new engine, its model is in the stored form. -/
theorem canonical_create_performAll (rows columns : ℕ) (config : Config α)
    (edits : List (Edit α)) :
    ((create rows columns config).performAll edits).model.Canonical :=
  canonical_performAll (Model.canonical_blank rows columns config.infinity) edits

/-- The stored form spelled out for every vector that an engine holds: the indices increase, each
of them is the place of a column, and no value that is listed equals zero, of either sign. -/
theorem stored_vectors_canonical (rows columns : ℕ) (config : Config α) (edits : List (Edit α)) :
    let m := ((create rows columns config).performAll edits).model
    ∀ v ∈ m.cost :: m.rows.map Row.coefficients,
      v.Pairwise (fun d e => d.1 < e.1) ∧ (∀ e ∈ v, e.1 < m.columns.length) ∧
        ∀ e ∈ v, Scalar.isZero e.2 = false := by
  intro m v hv
  have hm : m.Canonical := canonical_create_performAll rows columns config edits
  have hcanonical : v.Canonical m.nrColumns := by
    rcases List.mem_cons.mp hv with rfl | hv
    · exact hm.cost
    · obtain ⟨r, hr, rfl⟩ := List.mem_map.mp hv
      exact hm.rows r hr
  exact ⟨hcanonical.sorted, hcanonical.within, hcanonical.nonzero⟩

end Engine
end LinProg
