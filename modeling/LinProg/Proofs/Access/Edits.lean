/-
The edits of an engine as programs on arrays.

Here an edit changes the engine in place, after the checks that it makes and
in the order in which it makes them, and its answer goes with the engine as
it has become by then.  Nothing in this form keeps an edit from being refused
halfway, least of all where many right-hand sides are written one after the
other.  That it is never refused after the first change, and touches no place
that is not there, is what is proved: every edit has the answer and leaves
the engine that it has where a refused edit has no result at all.
-/
import LinProg.Proofs.Access.Reads

namespace LinProg

open Checked

variable {α : Type} [Scalar α]

namespace Engine

/-- The answer to an edit in place, with the engine after it. -/
abbrev Tried (α : Type) := Bool × Engine α

variable {e e' : Engine α} {row column : ℕ} {l : Listing α}

section Answers

omit [Scalar α]

/-- Refuse an edit. -/
def refuse (e : Engine α) : Checked (Tried α) := .ok (false, e)

/-- Accept an edit after which the engine is `e`. -/
def accept (e : Engine α) : Checked (Tried α) := .ok (true, e)

/-- The answer to an edit that has a result when it is accepted, with the engine after it. -/
def answer (e : Engine α) : Option (Engine α) → Tried α
  | some e' => (true, e')
  | none => (false, e)

end Answers

theorem perform_eq_answer (e : Engine α) (edit : Edit α) :
    e.perform edit = e.answer (edit.result? e) := by
  rw [perform]
  cases edit.result? e with
  | none => rfl
  | some e' => rfl

/-! ## Rows -/

def appendConstraintM (e : Engine α) (l : Listing α) (relation : Relation) (rightHandSide : α) :
    Checked (Tried α) := do
  match ← l.readM? 1 e.nrColumns 1 with
  | none => e.refuse
  | some v => accept (e.withModel (e.model.pushRow (Row.plain v relation rightHandSide)))

def setRowM (e : Engine α) (row : ℕ) (l : Listing α) : Checked (Tried α) := do
  if e.rowMode then
    e.refuse
  else
    match ← e.rowIndexM? row with
    | none => e.refuse
    | some i =>
        match ← l.readM? 1 e.nrColumns 1 with
        | none => e.refuse
        | some v => do
            accept (e.withModel (← e.model.alterRowM i fun r => { r with coefficients := v }))

def setObjectiveM (e : Engine α) (l : Listing α) : Checked (Tried α) := do
  match ← l.readM? 1 e.nrColumns 1 with
  | none => e.refuse
  | some v => accept (e.withModel { e.model with cost := v })

section Rows

omit [Scalar α]

def deleteConstraintM (e : Engine α) (row : ℕ) : Checked (Tried α) := do
  if e.rowMode then
    e.refuse
  else
    match ← e.rowIndexM? row with
    | none => e.refuse
    | some i => do accept (e.withModel { e.model with rows := ← takeOut e.model.rows i })

def editRowM (e : Engine α) (row : ℕ) (f : Row α → Row α) : Checked (Tried α) := do
  match ← e.rowIndexM? row with
  | none => e.refuse
  | some i => do accept (e.withModel (← e.model.alterRowM i f))

def setRightHandSideM (e : Engine α) (row : ℕ) (x : α) : Checked (Tried α) :=
  e.editRowM row fun r => { r with rightHandSide := x }

/-- Write the right-hand sides of the rows from `row` on.  Those that are written before one is
refused stay written. -/
def setRightHandSidesFromM (row : ℕ) : List α → Engine α → Checked (Tried α)
  | [], e => accept e
  | x :: xs, e => do
      match ← e.setRightHandSideM row x with
      | (true, e') => setRightHandSidesFromM (row + 1) xs e'
      | (false, e') => e'.refuse

def setRightHandSidesM (e : Engine α) (values : List α) : Checked (Tried α) :=
  if values.length = e.nrRows then setRightHandSidesFromM 1 values e else e.refuse

def setRowNameM (e : Engine α) (row : ℕ) (name : String) : Checked (Tried α) := do
  match ← e.rowIndexM? row with
  | none => e.refuse
  | some i => do
      accept { e with model := ← e.model.alterRowM i fun r => { r with name := some name } }

theorem editRow?_eq_some {i : ℕ} (hi : e.rowIndex? row = some i) (f : Row α → Row α) :
    e.editRow? row f = some (e.withModel { e.model with rows := e.model.rows.modify i f }) :=
  Option.bind_eq_some_iff.mpr ⟨i, hi, Option.bind_eq_some_iff.mpr
    ⟨_, if_pos (rowIndex?_eq_some.mp hi).2, rfl⟩⟩

theorem deleteConstraintM_eq (e : Engine α) (row : ℕ) :
    e.deleteConstraintM row = .ok (e.answer (e.deleteConstraint? row)) := by
  rw [deleteConstraintM, rowIndexM?_eq, ok_bind, deleteConstraint?]
  cases e.rowMode with
  | true => rfl
  | false =>
      cases hi : e.rowIndex? row with
      | none => rfl
      | some i =>
          have hlt : i < e.model.rows.length := (rowIndex?_eq_some.mp hi).2
          simp only [takeOut_eq_ok hlt, ok_bind]
          rfl

theorem editRowM_eq (e : Engine α) (row : ℕ) (f : Row α → Row α) :
    e.editRowM row f = .ok (e.answer (e.editRow? row f)) := by
  rw [editRowM, rowIndexM?_eq, ok_bind]
  cases hi : e.rowIndex? row with
  | none =>
      rw [editRow?, hi]
      rfl
  | some i =>
      have hlt : i < e.model.nrRows := (rowIndex?_eq_some.mp hi).2
      simp only [Model.alterRowM_eq hlt, ok_bind, editRow?_eq_some hi]
      rfl

theorem setRowNameM_eq (e : Engine α) (row : ℕ) (name : String) :
    e.setRowNameM row name = .ok (e.answer (e.setRowName? row name)) := by
  rw [setRowNameM, rowIndexM?_eq, ok_bind, setRowName?]
  cases hi : e.rowIndex? row with
  | none => rfl
  | some i =>
      have hlt : i < e.model.nrRows := (rowIndex?_eq_some.mp hi).2
      simp only [Model.alterRowM_eq hlt, ok_bind, Model.modifyRow?, Option.bind_eq_bind,
        Option.bind_some, if_pos hlt]
      rfl

/-- As long as the rows are there, no right-hand side is refused. -/
theorem setRightHandSidesFromM_eq (values : List α) (hrow : 1 ≤ row)
    (hlast : row + values.length ≤ e.nrRows + 1) :
    ∃ e', setRightHandSidesFromM row values e = accept e' ∧
      setRightHandSidesFrom? row values e = some e' := by
  induction values generalizing row e with
  | nil => exact ⟨e, rfl, rfl⟩
  | cons x values ih =>
      rw [List.length_cons] at hlast
      have hlt : row - 1 < e.nrRows := by omega
      have hindex : e.rowIndex? row = some (row - 1) := rowIndex?_eq_some.mpr ⟨by omega, hlt⟩
      have hd := editRow?_eq_some hindex fun r => { r with rightHandSide := x }
      set d := e.withModel { e.model with
        rows := e.model.rows.modify (row - 1) fun r => { r with rightHandSide := x } }
      have hrows : d.nrRows = e.nrRows := List.length_modify _ _ _
      have hwritten : e.setRightHandSideM row x = accept d := by
        rw [setRightHandSideM, editRowM_eq, hd]
        rfl
      rw [setRightHandSidesFromM, setRightHandSidesFrom?, setRightHandSide?, hwritten, hd]
      exact ih (Nat.le_succ_of_le hrow) (by omega)

theorem setRightHandSidesM_eq (e : Engine α) (values : List α) :
    e.setRightHandSidesM values = .ok (e.answer (e.setRightHandSides? values)) := by
  rw [setRightHandSidesM, setRightHandSides?]
  split
  · rename_i hlen
    have hlast : 1 + values.length ≤ e.nrRows + 1 := by omega
    obtain ⟨e', hok, hresult⟩ := setRightHandSidesFromM_eq values le_rfl hlast
    simp only [guard, if_pos hlen, hok, hresult]
    rfl
  · rename_i hlen
    simp only [guard, if_neg hlen]
    rfl

end Rows

theorem readRowM?_eq (e : Engine α) (l : Listing α) :
    l.readM? 1 e.nrColumns 1 = .ok (e.readRow? l) :=
  Listing.readM?_eq le_rfl l

theorem appendConstraintM_eq (e : Engine α) (l : Listing α) (relation : Relation) (b : α) :
    e.appendConstraintM l relation b = .ok (e.answer (e.appendConstraint? l relation b)) := by
  rw [appendConstraintM, readRowM?_eq, ok_bind, appendConstraint?]
  cases e.readRow? l with
  | none => rfl
  | some v => rfl

theorem setRowM_eq (e : Engine α) (row : ℕ) (l : Listing α) :
    e.setRowM row l = .ok (e.answer (e.setRow? row l)) := by
  rw [setRowM, rowIndexM?_eq, ok_bind, setRow?]
  cases e.rowMode with
  | true => rfl
  | false =>
      cases hi : e.rowIndex? row with
      | none => rfl
      | some i =>
          have hlt : i < e.model.nrRows := (rowIndex?_eq_some.mp hi).2
          simp only [readRowM?_eq, ok_bind]
          cases e.readRow? l with
          | none => rfl
          | some v =>
              simp only [Model.alterRowM_eq hlt, ok_bind, Model.modifyRow?, Option.bind_eq_bind,
                Option.bind_some, if_pos hlt]
              rfl

theorem setObjectiveM_eq (e : Engine α) (l : Listing α) :
    e.setObjectiveM l = .ok (e.answer (e.setObjective? l)) := by
  rw [setObjectiveM, readRowM?_eq, ok_bind, setObjective?]
  cases e.readRow? l with
  | none => rfl
  | some v => rfl

/-! ## Columns -/

def readColumnM? (e : Engine α) (l : Listing α) : Checked (Option (α × Sparse α)) := do
  match ← l.readM? 0 e.nrRows 0 with
  | none => return none
  | some v => return some (← splitCostM v)

def appendColumnM (e : Engine α) (l : Listing α) : Checked (Tried α) := do
  if e.rowMode then
    e.refuse
  else
    match ← e.readColumnM? l with
    | none => e.refuse
    | some (cost, values) => do
        let c := Column.nonnegative e.config.infinity
        accept (e.withModel (← e.model.pushColumnM cost values c))

def setColumnM (e : Engine α) (column : ℕ) (l : Listing α) : Checked (Tried α) := do
  if e.rowMode then
    e.refuse
  else
    match ← e.columnIndexM? column with
    | none => e.refuse
    | some j =>
        match ← e.readColumnM? l with
        | none => e.refuse
        | some (cost, values) => do
            accept (e.withModel (← e.model.setColumnM j cost values))

def setElementM (e : Engine α) (row column : ℕ) (x : α) : Checked (Tried α) := do
  if e.rowMode then
    e.refuse
  else if !(← e.hasRowM row) then
    e.refuse
  else
    match ← e.columnIndexM? column with
    | none => e.refuse
    | some j => do accept (e.withModel (← e.model.setElementM row j x))

def setBoundsM (e : Engine α) (column : ℕ) (lower upper : α) : Checked (Tried α) := do
  match ← e.columnIndexM? column with
  | none => e.refuse
  | some j =>
      if upper < lower then
        e.refuse
      else do
        accept (e.withModel (← e.model.alterColumnM j fun c =>
          { c with
            lower := Scalar.larger lower (-e.config.infinity)
            upper := Scalar.smaller upper e.config.infinity }))

def setLowerM (e : Engine α) (column : ℕ) (lower : α) : Checked (Tried α) := do
  match ← e.boundsM? column with
  | none => e.refuse
  | some (_, upper) => e.setBoundsM column lower upper

def setUpperM (e : Engine α) (column : ℕ) (upper : α) : Checked (Tried α) := do
  match ← e.boundsM? column with
  | none => e.refuse
  | some (lower, _) => e.setBoundsM column lower upper

omit [Scalar α] in
def deleteColumnM (e : Engine α) (column : ℕ) : Checked (Tried α) := do
  if e.rowMode then
    e.refuse
  else
    match ← e.columnIndexM? column with
    | none => e.refuse
    | some j => do
        let columns ← takeOut e.model.columns j
        accept (e.withModel { e.model.deleteColumn j with columns })

omit [Scalar α] in
def setColumnNameM (e : Engine α) (column : ℕ) (name : String) : Checked (Tried α) := do
  match ← e.columnIndexM? column with
  | none => e.refuse
  | some j => do
      accept { e with model := ← e.model.alterColumnM j fun c => { c with name := some name } }

theorem readColumnM?_eq (e : Engine α) (l : Listing α) :
    e.readColumnM? l = .ok (e.readColumn? l) := by
  rw [readColumnM?, Listing.readM?_eq le_rfl, ok_bind, readColumn?]
  cases hv : l.read? 0 e.nrRows 0 with
  | none => rfl
  | some v =>
      have hcanonical : v.Canonical (e.nrRows + 1) :=
        Listing.canonical_read? hv fun i _ hi => Nat.lt_succ_of_le hi
      simp only [splitCostM_eq hcanonical.sorted, ok_bind]
      rfl

theorem appendColumnM_eq (he : e.model.Sorted) (l : Listing α) :
    e.appendColumnM l = .ok (e.answer (e.appendColumn? l)) := by
  rw [appendColumnM, readColumnM?_eq, ok_bind, appendColumn?]
  cases e.rowMode with
  | true => rfl
  | false =>
      cases hread : e.readColumn? l with
      | none => rfl
      | some d =>
          obtain ⟨cost, values⟩ := d
          obtain ⟨m, hm⟩ : ∃ m, e.model.pushColumn? cost values
              (Column.nonnegative e.config.infinity) = some m :=
            ⟨_, if_pos (of_readColumn? hread).1.within⟩
          simp only [Model.pushColumnM_eq he hm, ok_bind, Option.bind_eq_bind, Option.bind_some, hm]
          rfl

theorem setColumnM_eq (he : e.model.Sorted) (column : ℕ) (l : Listing α) :
    e.setColumnM column l = .ok (e.answer (e.setColumn? column l)) := by
  rw [setColumnM, columnIndexM?_eq, ok_bind, setColumn?]
  cases e.rowMode with
  | true => rfl
  | false =>
      cases e.columnIndex? column with
      | none => rfl
      | some j =>
          simp only [readColumnM?_eq, ok_bind]
          cases e.readColumn? l with
          | none => rfl
          | some d =>
              obtain ⟨cost, values⟩ := d
              simp only [Model.setColumnM_eq he, ok_bind]
              rfl

theorem setElementM_eq (he : e.model.Sorted) (row column : ℕ) (x : α) :
    e.setElementM row column x = .ok (e.answer (e.setElement? row column x)) := by
  rw [setElementM, hasRowM_eq, ok_bind, columnIndexM?_eq, ok_bind, setElement?]
  cases e.rowMode with
  | true => rfl
  | false =>
      cases e.columnIndex? column with
      | none =>
          cases decide (row ≤ e.nrRows) with
          | true => rfl
          | false => rfl
      | some j =>
          have hrow : (e.model.setElement? row j x).isSome = decide (row ≤ e.nrRows) :=
            e.model.isSome_setElement? row j x
          rw [← hrow]
          cases hm : e.model.setElement? row j x with
          | none =>
              simp only [Option.bind_eq_bind, Option.bind_some, hm]
              rfl
          | some m =>
              simp only [Model.setElementM_eq he hm, ok_bind, Option.bind_eq_bind,
                Option.bind_some, hm]
              rfl

theorem setBoundsM_eq (e : Engine α) (column : ℕ) (lower upper : α) :
    e.setBoundsM column lower upper = .ok (e.answer (e.setBounds? column lower upper)) := by
  rw [setBoundsM, columnIndexM?_eq, ok_bind, setBounds?]
  cases hj : e.columnIndex? column with
  | none => rfl
  | some j =>
      have hlt : j < e.model.nrColumns := (columnIndex?_eq_some.mp hj).2
      simp only [Model.alterColumnM_eq hlt, ok_bind, Model.modifyColumn?, Option.bind_eq_bind,
        Option.bind_some, if_pos hlt, guard]
      by_cases h : upper < lower
      · rw [if_pos h, if_neg (not_not.mpr h)]
        rfl
      · rw [if_neg h, if_pos h]
        rfl

section Columns

omit [Scalar α]

theorem deleteColumnM_eq (e : Engine α) (column : ℕ) :
    e.deleteColumnM column = .ok (e.answer (e.deleteColumn? column)) := by
  rw [deleteColumnM, columnIndexM?_eq, ok_bind, deleteColumn?]
  cases e.rowMode with
  | true => rfl
  | false =>
      cases hj : e.columnIndex? column with
      | none => rfl
      | some j =>
          have hlt : j < e.model.columns.length := (columnIndex?_eq_some.mp hj).2
          simp only [takeOut_eq_ok hlt, ok_bind]
          rfl

theorem setColumnNameM_eq (e : Engine α) (column : ℕ) (name : String) :
    e.setColumnNameM column name = .ok (e.answer (e.setColumnName? column name)) := by
  rw [setColumnNameM, columnIndexM?_eq, ok_bind, setColumnName?]
  cases hj : e.columnIndex? column with
  | none => rfl
  | some j =>
      have hlt : j < e.model.nrColumns := (columnIndex?_eq_some.mp hj).2
      simp only [Model.alterColumnM_eq hlt, ok_bind, Model.modifyColumn?, Option.bind_eq_bind,
        Option.bind_some, if_pos hlt]
      rfl

end Columns

end Engine
end LinProg
