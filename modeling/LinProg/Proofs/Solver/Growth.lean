/-
While rows are being added a model only grows by rows at its end.

As long as the mode stays on the engine refuses every edit of the rows and
columns that are there, and what it accepts besides constraints touches no
coefficient of a row.  The ways in are many, dense, as text, through
expressions and views, alone or in bulk; but all of them end in one edit of the
engine, so that the coefficients at the end are those at the start, followed by
those that the accepted calls have asked to append.
-/
import LinProg.Proofs.Engine.Sheet
import LinProg.Proofs.Solver.Bulk
import LinProg.Proofs.Solver.Denotation

namespace LinProg

variable {α : Type} [Scalar α]

/-! ## Edits of the engine -/

namespace Engine

variable {e e' e'' : Engine α} {added later : List (Sparse α)}

def listedRow (l : Listing α) : Sparse α := Sparse.collect (l.entries 1)

/-- The coefficients of the row that an edit asks to append. -/
def Edit.appended? : Edit α → Option (Sparse α)
  | .appendConstraint l _ _ => some (listedRow l)
  | .appendConstraintDense values _ _ => some (listedRow (Listing.ofDense 1 values))
  | .appendConstraintText text _ _ =>
      (Text.numbers? text).map fun values => listedRow (Listing.ofDense 1 values)
  | _ => none

/-- One engine has the columns of another, and its rows followed by others. -/
structure Grows (e : Engine α) (added : List (Sparse α)) (e' : Engine α) : Prop where
  nrColumns : e'.nrColumns = e.nrColumns
  rows : e'.model.rows.map Row.coefficients = e.model.rows.map Row.coefficients ++ added

omit [Scalar α] in
theorem Grows.refl (e : Engine α) : Grows e [] e := ⟨rfl, (List.append_nil _).symm⟩

omit [Scalar α] in
theorem Grows.trans (h : Grows e added e') (h' : Grows e' later e'') :
    Grows e (added ++ later) e'' := by
  refine ⟨h'.nrColumns.trans h.nrColumns, ?_⟩
  rw [h'.rows, h.rows, List.append_assoc]

omit [Scalar α] in
theorem Grows.of_sameMatrix (h : Model.SameMatrix e.model e'.model) : Grows e [] e' :=
  ⟨h.columns, h.rows.trans (List.append_nil _).symm⟩

theorem grows_appendConstraint? {l : Listing α} {relation : Relation} {b : α}
    (h : e.appendConstraint? l relation b = some e') : Grows e [listedRow l] e' := by
  obtain ⟨v, hv, rfl⟩ := of_appendConstraint? h
  rw [readRow?, Listing.read?] at hv
  obtain ⟨-, hv⟩ := Option.ite_none_right_eq_some.mp hv
  cases hv
  exact ⟨rfl, List.map_append⟩

theorem grows_setObjective? {l : Listing α} (h : e.setObjective? l = some e') :
    Grows e [] e' := by
  obtain ⟨v, -, rfl⟩ := of_setObjective? h
  exact ⟨rfl, (List.append_nil _).symm⟩

theorem Edit.ComesTo.appended?_eq {edit d : Edit α} (h : edit.ComesTo e d) :
    edit.appended? = d.appended? := by
  induction h with
  | text hspells hvalues _ ih =>
      refine Eq.trans ?_ ih
      cases hspells with
      | appendConstraint relation b => exact congrArg (Option.map _) hvalues
      | _ => rfl
  | _ => rfl

/-- An edit that is accepted in the mode appends the row that it asks to append, and changes no
coefficient of the others. -/
theorem grows_result? (hmode : e.rowMode = true) {edit : Edit α} (h : edit.result? e = some e') :
    Grows e edit.appended?.toList e' := by
  obtain ⟨d, hcomes, hdirect, h⟩ := Edit.exists_direct h
  rw [hcomes.appended?_eq]
  -- the edits of the rows and columns that are there have checked that the mode is off
  cases hdirect with
  | appendConstraint l relation b => exact grows_appendConstraint? h
  | setRow row l => cases hmode.symm.trans (of_setRow? h).1
  | setObjective l => exact grows_setObjective? h
  | appendColumn l => cases hmode.symm.trans (of_appendColumn? h).1
  | setColumn column l => cases hmode.symm.trans (of_setColumn? h).1
  | deleteColumn column => cases hmode.symm.trans (of_deleteColumn? h).1
  | deleteConstraint row => cases hmode.symm.trans (of_deleteConstraint? h).1
  | setElement row column x => cases hmode.symm.trans (of_setElement? h).1
  | _ => exact Grows.of_sameMatrix (sameMatrix_result? rfl h)

end Engine

/-! ## Calls -/

namespace Solver

variable {s : Solver α} {row? : Option (Sparse α)}

def Step.appended? : Step α → Option (Sparse α)
  | .addConstraint c => some (Engine.listedRow (Listing.ofTerms c.expression.terms))
  | .limitColumn column factor _ =>
      some (Engine.listedRow (Listing.ofTerms ((Expr.var column).scale factor).terms))
  | .engine edit => edit.appended?
  | _ => none

/-- The coefficients that a call with an answer has added, if it asks to append some. -/
def added (row? : Option (Sparse α)) : Answer → List (Sparse α)
  | .ok true => row?.toList
  | _ => []

/-- What a call comes to that asks to append a row, and is asked in the mode. -/
def GrowsBy (s : Solver α) (row? : Option (Sparse α)) (result : Answer × Solver α) : Prop :=
  s.engine.Grows (added row? result.1) result.2.engine

omit [Scalar α] in
theorem growsBy_error (error : Error) : s.GrowsBy row? (.error error, s) := Engine.Grows.refl _

theorem growsBy_perform (hmode : s.engine.rowMode = true) (edit : Engine.Edit α) :
    s.GrowsBy edit.appended? (s.perform edit) := by
  rw [GrowsBy, perform, Engine.perform]
  cases hresult : edit.result? s.engine with
  | some e' => exact Engine.grows_result? hmode hresult
  | none => exact Engine.Grows.refl _

theorem growsBy_performIf (hmode : s.engine.rowMode = true) (check : Except Error Unit)
    (edit : Engine.Edit α) : s.GrowsBy edit.appended? (s.performIf check edit) := by
  cases check with
  | error error => exact growsBy_error error
  | ok u => exact growsBy_perform hmode edit

theorem growsBy_performWith (hmode : s.engine.rowMode = true) (e : Expr α)
    (edit : Listing α → Engine.Edit α) :
    s.GrowsBy (edit (Listing.ofTerms e.terms)).appended? (s.performWith e edit) := by
  by_cases hzero : 0 ∈ e.terms.map Term.column
  · rw [performWith_of_zero hzero]
    exact growsBy_error .invalidColumn
  · obtain ⟨workspace, hperform⟩ := performWith_of_ne (s := s) hzero
    rw [hperform]
    exact growsBy_perform (s := { s with workspace }) hmode _

theorem growsBy_setRow (hmode : s.engine.rowMode = true) (row : ℕ) (e : Expr α) :
    s.GrowsBy none (s.setRow row e) := by
  rw [setRow]
  cases s.checkRow row with
  | error error => exact growsBy_error error
  | ok u => exact growsBy_performWith hmode e (.setRow row)

theorem growsBy_limitColumn (hmode : s.engine.rowMode = true) (column : ℕ) (factor bound : α) :
    s.GrowsBy (Step.limitColumn column factor bound).appended?
      (s.limitColumn column factor bound) := by
  rw [limitColumn]
  cases s.checkColumn column with
  | error error => exact growsBy_error error
  | ok u => exact growsBy_performWith hmode _ _

theorem growsBy_editRow (hmode : s.engine.rowMode = true) (row : ℕ) (edit : RowEdit α) :
    s.GrowsBy none (s.editRow row edit) := by
  cases edit with
  | values e => exact growsBy_setRow hmode row e
  | dense values => exact growsBy_performIf hmode _ (.setRowDense row values)
  | name name => exact growsBy_performIf hmode _ (.setRowName row name)
  | relation relation => exact growsBy_performIf hmode _ (.setRelation row relation)
  | rightHandSide x => exact growsBy_performIf hmode _ (.setRightHandSide row x)
  | range width => exact growsBy_performIf hmode _ (.setRange row width)

theorem growsBy_editColumn (hmode : s.engine.rowMode = true) (column : ℕ)
    (edit : ColumnEdit α) : s.GrowsBy none (s.editColumn column edit) := by
  have hnone : (edit.toEdit column).appended? = none := by
    cases edit with
    | _ => rfl
  exact hnone ▸ growsBy_performIf hmode (s.checkColumn column) (edit.toEdit column)

/-! ## Sessions -/

mutual

/-- Whether the row adding mode is on when a step is taken and ever after until its end. -/
def staysOn (s : Solver α) : Step α → Bool
  | .bulk steps => s.engine.rowMode && (s.perform (.setRowMode true)).2.staysOnAll steps
  | step => s.engine.rowMode && (s.step step).2.engine.rowMode

/-- Whether the row adding mode is on from the first of some steps to the end of the last. -/
def staysOnAll (s : Solver α) : List (Step α) → Bool
  | [] => s.engine.rowMode
  | step :: rest => s.staysOn step && (s.step step).2.staysOnAll rest

end

mutual

/-- The coefficients of the rows that the accepted calls of a step ask to append, in their order. -/
def appended (s : Solver α) : Step α → List (Sparse α)
  | .bulk steps => (s.perform (.setRowMode true)).2.appendedAll steps
  | step => added step.appended? (s.step step).1

def appendedAll (s : Solver α) : List (Step α) → List (Sparse α)
  | [] => []
  | step :: rest => s.appended step ++ (s.step step).2.appendedAll rest

end

theorem rowMode_of_staysOn {step : Step α} (h : s.staysOn step = true) :
    s.engine.rowMode = true := by
  cases step with
  | _ => exact (Bool.and_eq_true_iff.mp h).1

theorem perform_setRowMode_of_on (hmode : s.engine.rowMode = true) :
    s.perform (.setRowMode true) = (.ok false, s) := by
  rw [perform, Engine.perform_setRowMode_of_on hmode]

/-- Where the mode is on already steps are taken in bulk as they are one after the other. -/
theorem step_bulk_of_on (hmode : s.engine.rowMode = true) (steps : List (Step α)) :
    (s.step (.bulk steps)).2 = s.steps steps := by
  rw [step, bulkInsert, Engine.perform_setRowMode_of_on hmode]
  rfl

mutual

theorem grows_step (s : Solver α) (step : Step α) (h : s.staysOn step = true) :
    s.engine.Grows (s.appended step) (s.step step).2.engine := by
  have hmode := rowMode_of_staysOn h
  cases step with
  | bulk steps =>
      rw [staysOn, perform_setRowMode_of_on hmode, Bool.and_eq_true] at h
      rw [appended, perform_setRowMode_of_on hmode, step_bulk_of_on hmode]
      exact grows_steps s steps h.2
  | addConstraint c => exact growsBy_performWith hmode c.expression _
  | setRow row e => exact growsBy_setRow hmode row e
  | setObjective e => exact growsBy_performWith hmode e .setObjective
  | deleteColumn column => exact growsBy_performIf hmode _ (.deleteColumn column)
  | deleteConstraint row => exact growsBy_performIf hmode _ (.deleteConstraint row)
  | setElement row column x => exact growsBy_performIf hmode _ (.setElement row column x)
  | limitColumn column factor bound => exact growsBy_limitColumn hmode column factor bound
  | onRow row edit => exact growsBy_editRow hmode row edit
  | onColumn column edit => exact growsBy_editColumn hmode column edit
  | engine edit => exact growsBy_perform hmode edit

theorem grows_steps (s : Solver α) (steps : List (Step α)) (h : s.staysOnAll steps = true) :
    s.engine.Grows (s.appendedAll steps) (s.steps steps).engine := by
  match steps with
  | [] => exact Engine.Grows.refl s.engine
  | first :: rest =>
      rw [staysOnAll, Bool.and_eq_true] at h
      exact (grows_step s first h.1).trans (grows_steps _ rest h.2)

end

/-- In row adding mode the matrix only grows by rows at the end.  After any steps during which the
mode stays on there are as many columns as before, and the coefficients of the rows are those from
before, followed by those that the accepted calls have asked to append, in their order. -/
theorem only_rows_appended (s : Solver α) (steps : List (Step α))
    (h : s.staysOnAll steps = true) :
    (s.steps steps).engine.nrColumns = s.engine.nrColumns ∧
      (s.steps steps).engine.model.rows.map Row.coefficients
        = s.engine.model.rows.map Row.coefficients ++ s.appendedAll steps :=
  ⟨(grows_steps s steps h).nrColumns, (grows_steps s steps h).rows⟩

/-- A row that is written, a column that is deleted and an expression with column 0 leave nothing;
one row is appended before them, one in bulk, and one at the end. -/
theorem only_rows_appended_mixed :
    let s : Solver ℚ := ((create 1 2 .standard).step (.engine (.setRowMode true))).2
    let steps : List (Step ℚ) :=
      [.addConstraint ((Expr.var 1).lessOrEqual 4), .onRow 1 (.dense [5, 6]),
        .bulk [.deleteColumn 2, .limitColumn 2 3 4, .addConstraint ((Expr.var 0).lessOrEqual 1)],
        .engine (.appendConstraintDense [7, 8] .less 9)]
    s.staysOnAll steps = true ∧ s.appendedAll steps = [[(0, 1)], [(1, 3)], [(0, 7), (1, 8)]] ∧
      (s.steps steps).engine.nrColumns = s.engine.nrColumns ∧
      (s.steps steps).engine.model.rows.map Row.coefficients
        = s.engine.model.rows.map Row.coefficients ++ s.appendedAll steps := by
  intro s steps
  have hmode : s.staysOnAll steps = true := by decide +kernel
  exact ⟨hmode, by decide +kernel, only_rows_appended s steps hmode⟩

end Solver
end LinProg
