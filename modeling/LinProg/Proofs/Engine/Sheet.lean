/-
The engine as a dense matrix.

An engine stores its matrix by rows, sparse, and is edited by rows, by columns
and by elements, with repeated entries, numbers that start from one, and a row
0 that is stored elsewhere.  Seen from outside it is a sheet: every accepted
edit of the matrix does to the sheet what the edit is called, every other edit
leaves the cells alone, and all ways of reading show the same cells.
-/
import LinProg.Proofs.Model.Sheet
import LinProg.Proofs.Engine.Accepted
import LinProg.Proofs.Engine.Canonical

namespace LinProg

variable {α : Type} [Scalar α]

namespace Engine

/-- What an engine shows of its matrix: the elements, zero where there is none, and the attributes
of the rows and columns. -/
def sheet (e : Engine α) : Sheet α where
  cell row column := (e.element? row column).getD 0
  headings := e.model.rows.map Row.heading
  columns := e.model.columns
  sense := e.model.sense

namespace Edit

/-- What an edit of the matrix does to the sheet of an engine; other edits are none. -/
def onSheet? (e : Engine α) : Edit α → Option (Sheet α → Sheet α)
  | appendConstraint l relation b => some (Sheet.appendRow ⟨relation, b, none, none⟩ (l.total ·))
  | appendConstraintDense values relation b =>
      some (Sheet.appendRow ⟨relation, b, none, none⟩ (Listing.dense 1 values))
  | appendConstraintText text relation b => (Text.numbers? text).map fun values =>
      Sheet.appendRow ⟨relation, b, none, none⟩ (Listing.dense 1 values)
  | setRow row l => some (Sheet.setRow row (l.total ·))
  | setRowDense row values => some (Sheet.setRow row (Listing.dense 1 values))
  | setObjective l => some (Sheet.setRow 0 (l.total ·))
  | setObjectiveDense values => some (Sheet.setRow 0 (Listing.dense 1 values))
  | setObjectiveText text => (Text.numbers? text).map fun values =>
      Sheet.setRow 0 (Listing.dense 1 values)
  | appendColumn l =>
      some (Sheet.appendColumn (Column.nonnegative e.config.infinity) (l.total ·))
  | appendColumnDense values =>
      some (Sheet.appendColumn (Column.nonnegative e.config.infinity) (Listing.dense 0 values))
  | appendColumnText text => (Text.numbers? text).map fun values =>
      Sheet.appendColumn (Column.nonnegative e.config.infinity) (Listing.dense 0 values)
  | setColumn column l => some (Sheet.setColumn column (l.total ·))
  | setColumnDense column values => some (Sheet.setColumn column (Listing.dense 0 values))
  | deleteColumn column => some (Sheet.deleteColumn column)
  | deleteConstraint row => some (Sheet.deleteRow row)
  | setElement row column x => some (Sheet.setCell row column (Scalar.written x))
  | _ => none

end Edit

variable {e e' : Engine α} {l : Listing α} {row column : ℕ}

/-! ## Reading -/

theorem sheet_eq (he : e.model.Canonical) : e.sheet = e.model.sheet := by
  refine Sheet.ext ?_ rfl rfl rfl
  funext row column
  cases column with
  | zero => rfl
  | succ j =>
      rcases lt_or_ge j e.nrColumns with hj | hj
      · have hindex : e.columnIndex? (j + 1) = some j := columnIndex?_eq_some.mpr ⟨rfl, hj⟩
        simp only [sheet, element?, hindex]
        rfl
      · have hindex : e.columnIndex? (j + 1) = none := if_neg (by omega)
        simp only [sheet, element?, hindex]
        exact (he.cell_eq_zero hj row).symm

theorem nrRows_sheet (e : Engine α) : e.sheet.nrRows = e.nrRows := List.length_map _

theorem nrColumns_sheet (e : Engine α) : e.sheet.nrColumns = e.nrColumns := rfl

theorem numbered_readRow? {v : Sparse α} (h : e.readRow? l = some v) :
    Model.numbered (fun j => v.get j) = fun column => l.total column := by
  funext column
  cases column with
  | zero => exact ((Listing.read?_eq_some.mp h).1.total_eq_zero (Or.inl Nat.zero_lt_one)).symm
  | succ j => exact Listing.get_read? h le_rfl j

/-- Taking the cost off a column is to read index 0 and to delete it. -/
theorem splitCost_eq {v : Sparse α} (hv : v.Sorted) : splitCost v = (v.get 0, v.delete 0) := by
  cases v with
  | nil => rfl
  | cons e v =>
      obtain ⟨i, x⟩ := e
      have hpos : ∀ d ∈ v, d.1 ≠ 0 := fun d hd => by
        have hlt := (List.pairwise_cons.mp hv).1 d hd
        omega
      cases i with
      | zero => exact congrArg (x, ·) (Sparse.delete_zero hpos).symm
      | succ i =>
          have hall : ∀ d ∈ (i + 1, x) :: v, d.1 ≠ 0 := by
            intro d hd
            rcases List.mem_cons.mp hd with rfl | hd
            · exact Nat.succ_ne_zero i
            · exact hpos d hd
          have hget : Sparse.get 0 ((i + 1, x) :: v) = 0 := by
            rw [Sparse.get_eq_lookup, Sparse.lookup_eq_none hall]
            rfl
          rw [hget, Sparse.delete_zero hall]
          rfl

theorem of_readColumn? {cost : α} {values : Sparse α} (h : e.readColumn? l = some (cost, values)) :
    values.Canonical e.nrRows ∧
      ∀ row, Scalar.written (Model.columnEntry cost values row) = l.total row := by
  obtain ⟨v, hv, hsplit⟩ := Option.map_eq_some_iff.mp h
  have hcanonical : v.Canonical (e.nrRows + 1) :=
    Listing.canonical_read? hv fun i _ hi => Nat.lt_succ_of_le hi
  rw [splitCost_eq hcanonical.sorted] at hsplit
  obtain ⟨rfl, rfl⟩ := Prod.mk.inj hsplit
  refine ⟨hcanonical.delete (Nat.succ_pos _), ?_⟩
  intro row
  have hget : Model.columnEntry (v.get 0) (v.delete 0) row = v.get row := by
    cases row with
    | zero => rfl
    | succ i => exact Sparse.get_delete 0 v i
  rw [hget, hcanonical.written_get]
  exact Listing.get_read? hv le_rfl row

/-! ## The edits of the matrix -/

/-- An engine with another model, whose sheet is the one before with a change made to it. -/
structure Edited (f : Sheet α → Sheet α) (e e' : Engine α) : Prop where
  sheet : e'.sheet = f e.sheet
  model : ∃ m, e' = e.withModel m

theorem edited_withModel {m : Model α} {f : Sheet α → Sheet α} (he : e.model.Canonical)
    (hm : m.Canonical) (h : m.sheet = f e.model.sheet) : Edited f e (e.withModel m) := by
  refine ⟨?_, m, rfl⟩
  rw [sheet_eq he, ← h]
  exact sheet_eq hm

theorem edited_appendConstraint? (he : e.model.Canonical) {relation : Relation} {b : α}
    (h : e.appendConstraint? l relation b = some e') :
    Edited (Sheet.appendRow ⟨relation, b, none, none⟩ (l.total ·)) e e' := by
  have hcanonical := canonical_appendConstraint? he h
  obtain ⟨v, hv, rfl⟩ := of_appendConstraint? h
  rw [← numbered_readRow? hv]
  exact edited_withModel he hcanonical (Model.sheet_pushRow _ _)

theorem edited_setRow? (he : e.model.Canonical) (h : e.setRow? row l = some e') :
    Edited (Sheet.setRow row (l.total ·)) e e' := by
  have hcanonical := canonical_setRow? he h
  obtain ⟨-, i, v, rfl, hi, hv, rfl⟩ := of_setRow? h
  rw [← numbered_readRow? hv]
  exact edited_withModel he hcanonical (Model.sheet_setCoefficients hi v)

theorem edited_setObjective? (he : e.model.Canonical) (h : e.setObjective? l = some e') :
    Edited (Sheet.setRow 0 (l.total ·)) e e' := by
  have hcanonical := canonical_setObjective? he h
  obtain ⟨v, hv, rfl⟩ := of_setObjective? h
  rw [← numbered_readRow? hv]
  exact edited_withModel he hcanonical (Model.sheet_setCost _ v)

theorem edited_appendColumn? (he : e.model.Canonical) (h : e.appendColumn? l = some e') :
    Edited (Sheet.appendColumn (Column.nonnegative e.config.infinity) (l.total ·)) e e' := by
  have hcanonical := canonical_appendColumn? he h
  obtain ⟨-, cost, values, hread, rfl⟩ := of_appendColumn? h
  obtain ⟨hvalues, htotal⟩ := of_readColumn? hread
  rw [← funext htotal]
  exact edited_withModel he hcanonical (Model.sheet_scatter he hvalues cost _)

theorem edited_setColumn? (he : e.model.Canonical) (h : e.setColumn? column l = some e') :
    Edited (Sheet.setColumn column (l.total ·)) e e' := by
  have hcanonical := canonical_setColumn? he h
  obtain ⟨-, j, cost, values, rfl, -, hread, rfl⟩ := of_setColumn? h
  obtain ⟨hvalues, htotal⟩ := of_readColumn? hread
  rw [← funext htotal]
  exact edited_withModel he hcanonical (Model.sheet_setColumn he hvalues j cost)

theorem edited_deleteColumn? (he : e.model.Canonical) (h : e.deleteColumn? column = some e') :
    Edited (Sheet.deleteColumn column) e e' := by
  have hcanonical := canonical_deleteColumn? he h
  obtain ⟨-, j, rfl, -, rfl⟩ := of_deleteColumn? h
  exact edited_withModel he hcanonical (Model.sheet_deleteColumn _ j)

theorem edited_deleteConstraint? (he : e.model.Canonical)
    (h : e.deleteConstraint? row = some e') : Edited (Sheet.deleteRow row) e e' := by
  have hcanonical := canonical_deleteConstraint? he h
  obtain ⟨-, i, rfl, -, rfl⟩ := of_deleteConstraint? h
  exact edited_withModel he hcanonical (Model.sheet_deleteRow _ i)

theorem edited_setElement? (he : e.model.Canonical) {x : α}
    (h : e.setElement? row column x = some e') :
    Edited (Sheet.setCell row column (Scalar.written x)) e e' := by
  have hcanonical := canonical_setElement? he h
  obtain ⟨-, j, m, rfl, -, hm, rfl⟩ := of_setElement? h
  exact edited_withModel he hcanonical (Model.sheet_setElement? he hm)

theorem Edit.ComesTo.onSheet?_eq {edit d : Edit α} (h : edit.ComesTo e d) :
    edit.onSheet? e = d.onSheet? e := by
  induction h with
  | text hspells hvalues _ ih =>
      refine Eq.trans ?_ ih
      cases hspells with
      | setRightHandSides => rfl
      | _ => exact congrArg (Option.map _) hvalues
  | direct _ => rfl
  | _ => simp only [onSheet?, Listing.total_ofDense]

theorem edited_result? (he : e.model.Canonical) {edit : Edit α} {f : Sheet α → Sheet α}
    (hf : edit.onSheet? e = some f) (h : edit.result? e = some e') : Edited f e e' := by
  obtain ⟨d, hcomes, hdirect, h⟩ := Edit.exists_direct h
  rw [hcomes.onSheet?_eq] at hf
  cases hdirect with
  | appendConstraint l relation b => exact Option.some.inj hf ▸ edited_appendConstraint? he h
  | setRow row l => exact Option.some.inj hf ▸ edited_setRow? he h
  | setObjective l => exact Option.some.inj hf ▸ edited_setObjective? he h
  | appendColumn l => exact Option.some.inj hf ▸ edited_appendColumn? he h
  | setColumn column l => exact Option.some.inj hf ▸ edited_setColumn? he h
  | deleteColumn column => exact Option.some.inj hf ▸ edited_deleteColumn? he h
  | deleteConstraint row => exact Option.some.inj hf ▸ edited_deleteConstraint? he h
  | setElement row column x => exact Option.some.inj hf ▸ edited_setElement? he h
  | _ => cases hf

/-! ## The other edits -/

omit [Scalar α] in
theorem sameMatrix_editRow? {f : Row α → Row α} (hf : ∀ r, (f r).coefficients = r.coefficients)
    (h : e.editRow? row f = some e') : Model.SameMatrix e.model e'.model := by
  obtain ⟨i, -, -, rfl⟩ := of_editRow? h
  exact Model.sameMatrix_modifyRow hf e.model i

theorem sameMatrix_setBounds? {lower upper : α} (h : e.setBounds? column lower upper = some e') :
    Model.SameMatrix e.model e'.model := by
  obtain ⟨-, j, -, -, rfl⟩ := of_setBounds? h
  exact Model.sameMatrix_columns e.model (List.length_modify _ _ _)

omit [Scalar α] in
theorem sameMatrix_setRightHandSides? {values : List α}
    (h : e.setRightHandSides? values = some e') : Model.SameMatrix e.model e'.model := by
  rcases of_setRightHandSides? h with ⟨-, rfl⟩ | ⟨-, rows, hrows, rfl⟩
  · exact Model.SameMatrix.refl e'.model
  · exact ⟨rfl, hrows, rfl⟩

theorem sameMatrix_result? {edit : Edit α} (hedit : edit.onSheet? e = none)
    (h : edit.result? e = some e') : Model.SameMatrix e.model e'.model := by
  obtain ⟨d, hcomes, hdirect, h⟩ := Edit.exists_direct h
  rw [hcomes.onSheet?_eq] at hedit
  cases hdirect with
  | setRightHandSide row x => exact sameMatrix_editRow? (by intro r; rfl) h
  | setRightHandSides values => exact sameMatrix_setRightHandSides? h
  | setRelation row relation => exact sameMatrix_editRow? (by intro r; rfl) h
  | setRange row width => exact sameMatrix_editRow? (by intro r; rfl) h
  | setBounds column lower upper => exact sameMatrix_setBounds? h
  | setRowName row name =>
      obtain ⟨i, -, -, rfl⟩ := of_setRowName? h
      exact Model.sameMatrix_modifyRow (by intro r; rfl) e.model i
  | setColumnName column name =>
      obtain ⟨j, -, -, rfl⟩ := of_setColumnName? h
      exact Model.sameMatrix_columns e.model (List.length_modify _ _ _)
  | setTitle name =>
      cases h
      exact Model.SameMatrix.refl e.model
  | setRowMode enabled =>
      obtain ⟨-, rfl⟩ := of_setRowMode? h
      exact Model.SameMatrix.refl e.model
  | setSense sense =>
      cases h
      rw [setSense]
      split
      · exact Model.SameMatrix.refl e.model
      · exact ⟨rfl, rfl, rfl⟩
  | setInfinity infinity =>
      cases h
      exact Model.sameMatrix_columns e.model (List.length_map _)
  | setConfig config =>
      cases h
      exact Model.sameMatrix_columns e.model (List.length_map _)
  | setAbort answer =>
      cases h
      exact Model.SameMatrix.refl e.model
  | clearAbort =>
      cases h
      exact Model.SameMatrix.refl e.model
  | solve clock =>
      cases h
      rw [solve]
      split
      · exact Model.SameMatrix.refl e.model
      · exact Model.SameMatrix.refl e.model
  | _ => cases hedit

theorem cells_eq (he : e.model.Canonical) (he' : e'.model.Canonical)
    (h : Model.SameMatrix e.model e'.model) : e'.sheet.cell = e.sheet.cell := by
  rw [sheet_eq he, sheet_eq he']
  funext row
  exact congrArg Model.numbered (funext (h.cell_eq row))

/-! ## All ways of reading -/

omit [Scalar α] in
theorem columnIndex?_eq_none (h : ¬ (1 ≤ column ∧ column ≤ e.nrColumns)) :
    e.columnIndex? column = none := if_neg h

omit [Scalar α] in
theorem rowIndex?_eq_none (h : ¬ (1 ≤ row ∧ row ≤ e.nrRows)) : e.rowIndex? row = none := if_neg h

theorem element?_eq_cell (e : Engine α) (row column : ℕ) :
    e.element? row column
      = if row ≤ e.nrRows ∧ 1 ≤ column ∧ column ≤ e.nrColumns then some (e.sheet.cell row column)
        else none := by
  have hsome : ∀ x, e.element? row column = some x →
      e.element? row column = some (e.sheet.cell row column) := by
    intro x hx
    simp only [sheet, hx, Option.getD_some]
  have hread : e.element? row column = (e.columnIndex? column).bind (e.model.element? row) := rfl
  by_cases hcolumn : 1 ≤ column ∧ column ≤ e.nrColumns
  · have hindex : e.columnIndex? column = some (column - 1) := if_pos hcolumn
    rw [hindex, Option.bind_some] at hread
    by_cases hrow : row ≤ e.nrRows
    · rw [if_pos ⟨hrow, hcolumn⟩]
      cases row with
      | zero => exact hsome _ hread
      | succ i =>
          have hi : e.model.rows[i]? = some e.model.rows[i] := List.getElem?_eq_getElem hrow
          rw [Model.element?, hi] at hread
          exact hsome _ hread
    · rw [if_neg fun h => hrow h.1, hread]
      obtain ⟨i, rfl⟩ : ∃ i, row = i + 1 := ⟨row - 1, by omega⟩
      rw [Model.element?, List.getElem?_eq_none (Nat.le_of_lt_succ (not_le.mp hrow))]
      rfl
  · rw [if_neg fun h => hcolumn h.2, hread, columnIndex?_eq_none hcolumn]
    rfl

theorem rowValues?_eq_cells (he : e.model.Canonical) (row : ℕ) :
    e.rowValues? row
      = if row ≤ e.nrRows then
          some ((List.range e.nrColumns).map fun j => e.sheet.cell row (j + 1))
        else none := by
  rw [sheet_eq he]
  cases row with
  | zero => rfl
  | succ i =>
      have hread : e.rowValues? (i + 1) = ((e.rowIndex? (i + 1)).bind fun k => e.model.rows[k]?).map
          fun r => r.coefficients.toDense e.nrColumns := rfl
      by_cases hi : i + 1 ≤ e.nrRows
      · have hindex : e.rowIndex? (i + 1) = some i := rowIndex?_eq_some.mpr ⟨rfl, hi⟩
        have hrow : e.model.rows[i]? = some e.model.rows[i] := List.getElem?_eq_getElem hi
        have hcell : ∀ j, e.model.sheet.cell (i + 1) (j + 1) = e.model.rows[i].coefficients.get j := by
          intro j
          exact (Model.cell_succ e.model i j).trans (by rw [hrow]; rfl)
        rw [if_pos hi, hread, hindex, Option.bind_some, hrow, Option.map_some]
        simp only [hcell]
        rfl
      · rw [if_neg hi, hread, rowIndex?_eq_none fun h => hi h.2]
        rfl

theorem columnValues?_eq_cells (he : e.model.Canonical) (column : ℕ) :
    e.columnValues? column
      = if 1 ≤ column ∧ column ≤ e.nrColumns then
          some ((List.range (e.nrRows + 1)).map fun row => e.sheet.cell row column)
        else none := by
  rw [sheet_eq he]
  have hread : e.columnValues? column
      = (e.columnIndex? column).bind fun j => some (e.model.columnValues j) := rfl
  by_cases hcolumn : 1 ≤ column ∧ column ≤ e.nrColumns
  · obtain ⟨j, rfl⟩ : ∃ j, column = j + 1 := ⟨column - 1, by omega⟩
    have hindex : e.columnIndex? (j + 1) = some j := columnIndex?_eq_some.mpr ⟨rfl, hcolumn.2⟩
    have hrows : e.model.rows.map (fun r => r.coefficients.get j)
        = (List.range e.nrRows).map fun i => e.model.cell (i + 1) j := by
      refine List.ext_getElem (by simp [nrRows, Model.nrRows]) ?_
      intro i hi _
      rw [List.length_map] at hi
      rw [List.getElem_map, List.getElem_map, List.getElem_range, Model.cell_succ,
        List.getElem?_eq_getElem hi]
      rfl
    rw [if_pos hcolumn, hread, hindex, Option.bind_some, Model.columnValues, hrows,
      List.range_succ_eq_map, List.map_cons, List.map_map]
    rfl
  · rw [if_neg hcolumn, hread, columnIndex?_eq_none hcolumn]
    rfl

theorem nrNonzeros_eq_card (he : e.model.Canonical) (hzero : Scalar.isZero (0 : α) = true) :
    e.nrNonzeros = ((Finset.Icc 1 e.nrRows ×ˢ Finset.Icc 1 e.nrColumns).filter
      fun p => Scalar.isZero (e.sheet.cell p.1 p.2) = false).card := by
  have hshift : ∀ (n : ℕ) (f : ℕ → ℕ),
      ∑ i ∈ Finset.Icc 1 n, f i = ∑ i ∈ Finset.range n, f (i + 1) := by
    intro n f
    rw [Finset.range_eq_Ico, Finset.sum_Ico_add' f 0 n 1]
    rfl
  rw [nrNonzeros, he.nrNonzeros_eq_sum hzero, Finset.card_filter, Finset.sum_product, hshift]
  refine Finset.sum_congr rfl ?_
  intro i _
  rw [hshift, Finset.card_filter, sheet_eq he]
  rfl

/-- All ways of reading the matrix of an engine show the cells of its sheet; a cell is zero or
compares unequal to it, and the coefficients that are counted are the cells of the rows that do. -/
structure Displays (e : Engine α) : Prop where
  element : ∀ row column, e.element? row column
    = if row ≤ e.nrRows ∧ 1 ≤ column ∧ column ≤ e.nrColumns then some (e.sheet.cell row column)
      else none
  rowValues : ∀ row, e.rowValues? row
    = if row ≤ e.nrRows then
        some ((List.range e.nrColumns).map fun j => e.sheet.cell row (j + 1))
      else none
  columnValues : ∀ column, e.columnValues? column
    = if 1 ≤ column ∧ column ≤ e.nrColumns then
        some ((List.range (e.nrRows + 1)).map fun row => e.sheet.cell row column)
      else none
  cell : ∀ row column,
    e.sheet.cell row column = 0 ∨ Scalar.isZero (e.sheet.cell row column) = false
  nrNonzeros : e.nrNonzeros
    = ((Finset.Icc 1 e.nrRows ×ˢ Finset.Icc 1 e.nrColumns).filter
        fun p => Scalar.isZero (e.sheet.cell p.1 p.2) = false).card

theorem displays (he : e.model.Canonical) (hzero : Scalar.isZero (0 : α) = true) :
    e.Displays where
  element := element?_eq_cell e
  rowValues := rowValues?_eq_cells he
  columnValues := columnValues?_eq_cells he
  cell row column := by
    rw [sheet_eq he]
    cases column with
    | zero => exact Or.inl rfl
    | succ j => exact he.cell_nonzero row j
  nrNonzeros := nrNonzeros_eq_card he hzero

/-! ## Every engine -/

/-- An edit of the matrix does to the sheet what it is called; another edit leaves the cells. -/
def Edit.ActsOnSheet (edit : Edit α) (e e' : Engine α) : Prop :=
  match edit.onSheet? e with
  | some f => Edited f e e'
  | none => e'.sheet.cell = e.sheet.cell ∧ e'.nrRows = e.nrRows ∧ e'.nrColumns = e.nrColumns

theorem actsOnSheet (he : e.model.Canonical) {edit : Edit α} (h : edit.result? e = some e') :
    edit.ActsOnSheet e e' := by
  rw [Edit.ActsOnSheet]
  split
  · rename_i f hf
    exact edited_result? he hf h
  · rename_i hnone
    have hsame := sameMatrix_result? hnone h
    exact ⟨cells_eq he (canonical_result? he h) hsame, hsame.nrRows_eq, hsame.columns⟩

/-- Whatever was tried on a new engine, it is a sheet to whoever reads it and to every edit that
it accepts. -/
theorem refines_sheet (hzero : Scalar.isZero (0 : α) = true) (rows columns : ℕ)
    (config : Config α) (edits : List (Edit α)) :
    ((create rows columns config).performAll edits).Displays ∧
      ∀ (edit : Edit α) (e' : Engine α),
        edit.result? ((create rows columns config).performAll edits) = some e' →
        edit.ActsOnSheet ((create rows columns config).performAll edits) e' := by
  have hcanonical := canonical_create_performAll rows columns config edits
  exact ⟨displays hcanonical hzero, fun edit e' h => actsOnSheet hcanonical h⟩

/-- A row, the objective and a column are written anew, and a row and a column are deleted. -/
def reshaping : List (Edit ℚ) :=
  [.setRow 2 ⟨3, [4, 1, 4], [3, 1, 3]⟩, .setObjective ⟨1, [2], [2]⟩,
    .setColumn 1 ⟨2, [5, -3], [0, 2]⟩, .deleteConstraint 1, .deleteColumn 2]

/-- Repeated and cancelling entries, a column appended to rows that exist, and then every edit that
writes over what is there or deletes it. -/
theorem refines_sheet_mixed :
    let e := (create 1 2 (Config.standard : Config ℚ)).performAll
      [.appendConstraint ⟨5, [1, 2, -1, 5, 9], [2, 1, 2, 2, 1]⟩ .less 4,
       .appendColumn ⟨3, [7, 1, -1], [0, 2, 2]⟩, .setElement 1 3 6]
    Scalar.isZero (0 : ℚ) = true ∧ e.Displays ∧
      e.rowValues? 2 = some [11, 5, 0] ∧ e.columnValues? 3 = some [7, 6, 0] ∧
      e.nrNonzeros = 3 ∧
      (∃ e', (Edit.deleteColumn 1).result? e = some e' ∧ e'.sheet = e.sheet.deleteColumn 1) ∧
      (∀ edit ∈ reshaping, ∃ f e', edit.onSheet? e = some f ∧ edit.result? e = some e' ∧
        e'.sheet = f e.sheet) ∧
      (e.performAll reshaping).rowValues? 0 = some [5, 0] ∧
      (e.performAll reshaping).rowValues? 1 = some [-3, 8] := by
  intro e
  obtain ⟨hdisplays, hacts⟩ := refines_sheet (by decide) 1 2 (Config.standard : Config ℚ)
    [.appendConstraint ⟨5, [1, 2, -1, 5, 9], [2, 1, 2, 2, 1]⟩ .less 4,
     .appendColumn ⟨3, [7, 1, -1], [0, 2, 2]⟩, .setElement 1 3 6]
  have hdelete : ((Edit.deleteColumn 1).result? e).isSome = true := by decide +kernel
  obtain ⟨e', he'⟩ := Option.isSome_iff_exists.mp hdelete
  have hreshape : ∀ edit ∈ reshaping,
      (edit.onSheet? e).isSome = true ∧ (edit.result? e).isSome = true := by decide +kernel
  refine ⟨by decide, hdisplays, by decide +kernel, by decide +kernel, by decide +kernel,
    ⟨e', he', (hacts _ e' he').sheet⟩, ?_, by decide +kernel, by decide +kernel⟩
  intro edit hedit
  obtain ⟨hsome, haccepted⟩ := hreshape edit hedit
  obtain ⟨f, hf⟩ := Option.isSome_iff_exists.mp hsome
  obtain ⟨e₁, he₁⟩ := Option.isSome_iff_exists.mp haccepted
  have hact := hacts edit e₁ he₁
  rw [Edit.ActsOnSheet, hf] at hact
  exact ⟨f, e₁, hf, he₁, hact.sheet⟩

/-- The floating point numbers qualify. -/
example : Scalar.isZero (0 : Float) = true := by decide

end Engine
end LinProg
