/-
What an accepted edit leaves behind.

One statement for each kind of edit says what the edit has checked and
which engine results.  Whoever wants to know what an edit does to an engine
asks here, and does not go through the steps of the edit again.
-/
import LinProg.Proofs.Model.Canonical
import LinProg.Engine.Edit

namespace LinProg

variable {α : Type} [Scalar α]

namespace Engine

variable {e e' : Engine α} {row column : ℕ} {l : Listing α}

/-! ## Places -/

omit [Scalar α] in
theorem rowIndex?_eq_some {i : ℕ} :
    e.rowIndex? row = some i ↔ row = i + 1 ∧ i < e.nrRows := by
  rw [rowIndex?, Option.ite_none_right_eq_some, Option.some.injEq]
  omega

omit [Scalar α] in
theorem columnIndex?_eq_some {j : ℕ} :
    e.columnIndex? column = some j ↔ column = j + 1 ∧ j < e.nrColumns := by
  rw [columnIndex?, Option.ite_none_right_eq_some, Option.some.injEq]
  omega

/-! ## Rows -/

theorem of_appendConstraint? {relation : Relation} {b : α}
    (h : e.appendConstraint? l relation b = some e') :
    ∃ v, e.readRow? l = some v ∧
      e' = e.withModel (e.model.pushRow (Row.plain v relation b)) := by
  obtain ⟨v, hv, h⟩ := Option.bind_eq_some_iff.mp h
  cases h
  exact ⟨v, hv, rfl⟩

theorem of_setRow? (h : e.setRow? row l = some e') :
    e.rowMode = false ∧ ∃ i v, row = i + 1 ∧ i < e.nrRows ∧ e.readRow? l = some v ∧
      e' = e.withModel
        { e.model with rows := e.model.rows.modify i fun r => { r with coefficients := v } } := by
  obtain ⟨_, hmode, h⟩ := Option.bind_eq_some_iff.mp h
  obtain ⟨i, hi, h⟩ := Option.bind_eq_some_iff.mp h
  obtain ⟨v, hv, h⟩ := Option.bind_eq_some_iff.mp h
  obtain ⟨m, hm, h⟩ := Option.bind_eq_some_iff.mp h
  cases h
  obtain ⟨hrow, hlt⟩ := rowIndex?_eq_some.mp hi
  exact ⟨(Option.guard_eq_some' _).mp hmode, i, v, hrow, hlt, hv,
    congrArg e.withModel (Model.of_modifyRow? hm).2⟩

theorem of_setObjective? (h : e.setObjective? l = some e') :
    ∃ v, e.readRow? l = some v ∧ e' = e.withModel { e.model with cost := v } := by
  obtain ⟨v, hv, h⟩ := Option.bind_eq_some_iff.mp h
  cases h
  exact ⟨v, hv, rfl⟩

omit [Scalar α] in
theorem of_deleteConstraint? (h : e.deleteConstraint? row = some e') :
    e.rowMode = false ∧ ∃ i, row = i + 1 ∧ i < e.nrRows ∧
      e' = e.withModel (e.model.deleteRow i) := by
  obtain ⟨_, hmode, h⟩ := Option.bind_eq_some_iff.mp h
  obtain ⟨i, hi, h⟩ := Option.bind_eq_some_iff.mp h
  cases h
  obtain ⟨hrow, hlt⟩ := rowIndex?_eq_some.mp hi
  exact ⟨(Option.guard_eq_some' _).mp hmode, i, hrow, hlt, rfl⟩

omit [Scalar α] in
theorem of_editRow? {f : Row α → Row α} (h : e.editRow? row f = some e') :
    ∃ i, row = i + 1 ∧ i < e.nrRows ∧
      e' = e.withModel { e.model with rows := e.model.rows.modify i f } := by
  obtain ⟨i, hi, h⟩ := Option.bind_eq_some_iff.mp h
  obtain ⟨m, hm, h⟩ := Option.bind_eq_some_iff.mp h
  cases h
  obtain ⟨hrow, hlt⟩ := rowIndex?_eq_some.mp hi
  exact ⟨i, hrow, hlt, congrArg e.withModel (Model.of_modifyRow? hm).2⟩

omit [Scalar α] in
/-- Right-hand sides are written one after the other; where there is one to write, the outcome is
gone, and the coefficients stay in any case. -/
theorem of_setRightHandSidesFrom? {values : List α}
    (h : setRightHandSidesFrom? row values e = some e') :
    (values = [] ∧ e' = e) ∨ (values ≠ [] ∧ ∃ rows,
      rows.map Row.coefficients = e.model.rows.map Row.coefficients ∧
      e' = e.withModel { e.model with rows }) := by
  induction values generalizing row e with
  | nil =>
      cases h
      exact Or.inl ⟨rfl, rfl⟩
  | cons x values ih =>
      refine Or.inr ⟨List.cons_ne_nil x values, ?_⟩
      obtain ⟨d, hd, h⟩ := Option.bind_eq_some_iff.mp h
      obtain ⟨i, -, -, rfl⟩ := of_editRow? hd
      have hkept : (e.model.rows.modify i fun r => { r with rightHandSide := x }).map
          Row.coefficients = e.model.rows.map Row.coefficients :=
        Dense.map_modify (by intro r; rfl) _ _
      rcases ih h with ⟨-, rfl⟩ | ⟨-, rows, hrows, rfl⟩
      · exact ⟨_, hkept, rfl⟩
      · exact ⟨rows, hrows.trans hkept, rfl⟩

omit [Scalar α] in
theorem of_setRightHandSides? {values : List α} (h : e.setRightHandSides? values = some e') :
    (values = [] ∧ e' = e) ∨ (values ≠ [] ∧ ∃ rows,
      rows.map Row.coefficients = e.model.rows.map Row.coefficients ∧
      e' = e.withModel { e.model with rows }) := by
  obtain ⟨-, -, h⟩ := Option.bind_eq_some_iff.mp h
  exact of_setRightHandSidesFrom? h

/-! ## Columns -/

theorem of_appendColumn? (h : e.appendColumn? l = some e') :
    e.rowMode = false ∧ ∃ cost values, e.readColumn? l = some (cost, values) ∧
      e' = e.withModel
        { e.model with
          columns := e.model.columns ++ [Column.nonnegative e.config.infinity]
          cost := e.model.cost.set e.nrColumns cost
          rows := Model.scatter e.nrColumns values e.model.rows } := by
  obtain ⟨_, hmode, h⟩ := Option.bind_eq_some_iff.mp h
  obtain ⟨⟨cost, values⟩, hread, h⟩ := Option.bind_eq_some_iff.mp h
  obtain ⟨m, hm, h⟩ := Option.bind_eq_some_iff.mp h
  cases h
  exact ⟨(Option.guard_eq_some' _).mp hmode, cost, values, hread,
    congrArg e.withModel (Model.of_pushColumn? hm).2⟩

theorem of_setColumn? (h : e.setColumn? column l = some e') :
    e.rowMode = false ∧ ∃ j cost values, column = j + 1 ∧ j < e.nrColumns ∧
      e.readColumn? l = some (cost, values) ∧
      e' = e.withModel (e.model.setColumn j cost values) := by
  obtain ⟨_, hmode, h⟩ := Option.bind_eq_some_iff.mp h
  obtain ⟨j, hj, h⟩ := Option.bind_eq_some_iff.mp h
  obtain ⟨⟨cost, values⟩, hread, h⟩ := Option.bind_eq_some_iff.mp h
  cases h
  obtain ⟨hcolumn, hlt⟩ := columnIndex?_eq_some.mp hj
  exact ⟨(Option.guard_eq_some' _).mp hmode, j, cost, values, hcolumn, hlt, hread, rfl⟩

omit [Scalar α] in
theorem of_deleteColumn? (h : e.deleteColumn? column = some e') :
    e.rowMode = false ∧ ∃ j, column = j + 1 ∧ j < e.nrColumns ∧
      e' = e.withModel (e.model.deleteColumn j) := by
  obtain ⟨_, hmode, h⟩ := Option.bind_eq_some_iff.mp h
  obtain ⟨j, hj, h⟩ := Option.bind_eq_some_iff.mp h
  cases h
  obtain ⟨hcolumn, hlt⟩ := columnIndex?_eq_some.mp hj
  exact ⟨(Option.guard_eq_some' _).mp hmode, j, hcolumn, hlt, rfl⟩

theorem of_setBounds? {lower upper : α} (h : e.setBounds? column lower upper = some e') :
    ¬ upper < lower ∧ ∃ j, column = j + 1 ∧ j < e.nrColumns ∧
      e' = e.withModel
        { e.model with
          columns := e.model.columns.modify j fun c =>
            { c with
              lower := Scalar.larger lower (-e.config.infinity)
              upper := Scalar.smaller upper e.config.infinity } } := by
  obtain ⟨j, hj, h⟩ := Option.bind_eq_some_iff.mp h
  obtain ⟨_, hbounds, h⟩ := Option.bind_eq_some_iff.mp h
  obtain ⟨m, hm, h⟩ := Option.bind_eq_some_iff.mp h
  cases h
  obtain ⟨hcolumn, hlt⟩ := columnIndex?_eq_some.mp hj
  exact ⟨(Option.guard_eq_some' _).mp hbounds, j, hcolumn, hlt,
    congrArg e.withModel (Model.of_modifyColumn? hm).2⟩

/-! ## Elements -/

theorem of_setElement? {x : α} (h : e.setElement? row column x = some e') :
    e.rowMode = false ∧ ∃ j m, column = j + 1 ∧ j < e.nrColumns ∧
      e.model.setElement? row j x = some m ∧ e' = e.withModel m := by
  obtain ⟨_, hmode, h⟩ := Option.bind_eq_some_iff.mp h
  obtain ⟨j, hj, h⟩ := Option.bind_eq_some_iff.mp h
  obtain ⟨m, hm, h⟩ := Option.bind_eq_some_iff.mp h
  cases h
  obtain ⟨hcolumn, hlt⟩ := columnIndex?_eq_some.mp hj
  exact ⟨(Option.guard_eq_some' _).mp hmode, j, m, hcolumn, hlt, hm, rfl⟩

/-! ## Names and modes -/

omit [Scalar α] in
theorem of_setRowName? {name : String} (h : e.setRowName? row name = some e') :
    ∃ i, row = i + 1 ∧ i < e.nrRows ∧
      e' = { e with model := { e.model with
        rows := e.model.rows.modify i fun r => { r with name := some name } } } := by
  obtain ⟨i, hi, h⟩ := Option.bind_eq_some_iff.mp h
  obtain ⟨m, hm, h⟩ := Option.bind_eq_some_iff.mp h
  cases h
  obtain ⟨hrow, hlt⟩ := rowIndex?_eq_some.mp hi
  exact ⟨i, hrow, hlt, congrArg (fun m => { e with model := m }) (Model.of_modifyRow? hm).2⟩

omit [Scalar α] in
theorem of_setColumnName? {name : String} (h : e.setColumnName? column name = some e') :
    ∃ j, column = j + 1 ∧ j < e.nrColumns ∧
      e' = { e with model := { e.model with
        columns := e.model.columns.modify j fun c => { c with name := some name } } } := by
  obtain ⟨j, hj, h⟩ := Option.bind_eq_some_iff.mp h
  obtain ⟨m, hm, h⟩ := Option.bind_eq_some_iff.mp h
  cases h
  obtain ⟨hcolumn, hlt⟩ := columnIndex?_eq_some.mp hj
  exact ⟨j, hcolumn, hlt, congrArg (fun m => { e with model := m }) (Model.of_modifyColumn? hm).2⟩

omit [Scalar α] in
theorem of_setRowMode? {enabled : Bool} (h : e.setRowMode? enabled = some e') :
    e.rowMode ≠ enabled ∧ e' = { e with rowMode := enabled } :=
  (Option.ite_none_left_eq_some.mp h).imp_right fun h => (Option.some.inj h).symm

/-! ## Trying an edit -/

section Perform

variable {edit : Edit α}

theorem perform_of_result? (h : edit.result? e = some e') : e.perform edit = (true, e') := by
  rw [perform, h]

theorem perform_of_result?_eq_none (h : edit.result? e = none) : e.perform edit = (false, e) := by
  rw [perform, h]

theorem perform_fst : (e.perform edit).1 = true ↔ (edit.result? e).isSome := by
  cases h : edit.result? e with
  | none =>
      rw [perform_of_result?_eq_none h]
      exact Iff.rfl
  | some e' =>
      rw [perform_of_result? h]
      exact Iff.rfl

end Perform

end Engine
end LinProg
