/-
In which mode rows are added after they were added in bulk.

Adding rows in bulk switches the row adding mode on, and off again at the
end if it was off before.  What is done in between may set the mode as well:
it can be set directly, and a solve ends it.  Where the mode was off before
it is off again whatever happens in between.  Where it was on nothing is
restored, so it is on again just if the last step that sets it leaves it on.
-/
import LinProg.Proofs.Engine.Forms
import LinProg.Solver.Step

namespace LinProg

variable {α : Type} [Scalar α]

/-! ## Edits of the engine -/

namespace Engine

variable {e e' : Engine α} {row column : ℕ} {l : Listing α}

/-- The mode after an edit, from the mode before it. -/
def Edit.modeAfter (mode : Bool) : Edit α → Bool
  | .setRowMode enabled => enabled
  | .solve _ => false
  | _ => mode

theorem rowMode_appendConstraint? {relation : Relation} {b : α}
    (h : e.appendConstraint? l relation b = some e') : e'.rowMode = e.rowMode := by
  obtain ⟨v, -, rfl⟩ := of_appendConstraint? h
  rfl

theorem rowMode_setRow? (h : e.setRow? row l = some e') : e'.rowMode = e.rowMode := by
  obtain ⟨-, i, v, -, -, -, rfl⟩ := of_setRow? h
  rfl

theorem rowMode_setObjective? (h : e.setObjective? l = some e') : e'.rowMode = e.rowMode := by
  obtain ⟨v, -, rfl⟩ := of_setObjective? h
  rfl

theorem rowMode_appendColumn? (h : e.appendColumn? l = some e') : e'.rowMode = e.rowMode := by
  obtain ⟨-, cost, values, -, rfl⟩ := of_appendColumn? h
  rfl

theorem rowMode_setColumn? (h : e.setColumn? column l = some e') : e'.rowMode = e.rowMode := by
  obtain ⟨-, j, cost, values, -, -, -, rfl⟩ := of_setColumn? h
  rfl

omit [Scalar α] in
theorem rowMode_editRow? {f : Row α → Row α} (h : e.editRow? row f = some e') :
    e'.rowMode = e.rowMode := by
  obtain ⟨i, -, -, rfl⟩ := of_editRow? h
  rfl

omit [Scalar α] in
theorem rowMode_setRightHandSides? {values : List α}
    (h : e.setRightHandSides? values = some e') : e'.rowMode = e.rowMode := by
  rcases of_setRightHandSides? h with ⟨-, rfl⟩ | ⟨-, rows, -, rfl⟩
  · rfl
  · rfl

theorem rowMode_setBounds? {lower upper : α} (h : e.setBounds? column lower upper = some e') :
    e'.rowMode = e.rowMode := by
  obtain ⟨-, j, -, -, rfl⟩ := of_setBounds? h
  rfl

theorem Edit.ComesTo.modeAfter_eq {edit d : Edit α} (h : edit.ComesTo e d) (mode : Bool) :
    edit.modeAfter mode = d.modeAfter mode := by
  induction h with
  | text hspells _ _ ih =>
      refine Eq.trans ?_ ih
      cases hspells <;> rfl
  | _ => rfl

/-- An edit that is accepted sets the mode, or leaves it alone. -/
theorem rowMode_result? {edit : Edit α} (h : edit.result? e = some e') :
    e'.rowMode = edit.modeAfter e.rowMode := by
  obtain ⟨d, hcomes, hdirect, h⟩ := Edit.exists_direct h
  rw [hcomes.modeAfter_eq]
  cases hdirect with
  | appendConstraint l relation b => exact rowMode_appendConstraint? h
  | setRow row l => exact rowMode_setRow? h
  | setObjective l => exact rowMode_setObjective? h
  | appendColumn l => exact rowMode_appendColumn? h
  | setColumn column l => exact rowMode_setColumn? h
  | deleteColumn column =>
      obtain ⟨-, j, -, -, rfl⟩ := of_deleteColumn? h
      rfl
  | deleteConstraint row =>
      obtain ⟨-, i, -, -, rfl⟩ := of_deleteConstraint? h
      rfl
  | setElement row column x =>
      obtain ⟨-, j, m, -, -, -, rfl⟩ := of_setElement? h
      rfl
  | setRightHandSide row x => exact rowMode_editRow? h
  | setRightHandSides values => exact rowMode_setRightHandSides? h
  | setRelation row relation => exact rowMode_editRow? h
  | setRange row width => exact rowMode_editRow? h
  | setBounds column lower upper => exact rowMode_setBounds? h
  | setRowName row name =>
      obtain ⟨i, -, -, rfl⟩ := of_setRowName? h
      rfl
  | setColumnName column name =>
      obtain ⟨j, -, -, rfl⟩ := of_setColumnName? h
      rfl
  | setRowMode enabled =>
      obtain ⟨-, rfl⟩ := of_setRowMode? h
      rfl
  | setSense sense =>
      obtain rfl : e.setSense sense = e' := Option.some.inj h
      rw [setSense]
      split
      · rfl
      · rfl
  | solve clock =>
      obtain rfl : e.solve clock = e' := Option.some.inj h
      rw [solve]
      split
      · rfl
      · rfl
  | setTitle name | setInfinity infinity | setConfig config | setAbort answer | clearAbort =>
      cases h
      rfl

/-- The only edit of the mode that is refused asks for the mode there is. -/
theorem rowMode_perform (e : Engine α) (edit : Edit α) :
    (e.perform edit).2.rowMode = edit.modeAfter e.rowMode := by
  rw [perform]
  cases hresult : edit.result? e with
  | some e' => exact rowMode_result? hresult
  | none =>
      cases edit with
      | setRowMode enabled =>
          show e.rowMode = enabled
          by_contra hne
          cases (if_neg hne).symm.trans hresult
      | solve clock => cases hresult
      | _ => rfl

theorem perform_setRowMode_of_on (hmode : e.rowMode = true) :
    e.perform (.setRowMode true) = (false, e) := by
  have hresult : Edit.result? e (.setRowMode true) = none := if_pos hmode
  rw [perform, hresult]

end Engine

/-! ## Steps of a session -/

namespace Solver

mutual

/-- The mode after a step, from the mode before it.  Steps in bulk start with the mode on, and end
with it off if it was off before. -/
def Step.modeAfter (mode : Bool) : Step α → Bool
  | .engine edit => edit.modeAfter mode
  | .bulk steps => mode && Step.modeAfterAll true steps
  | _ => mode

def Step.modeAfterAll (mode : Bool) : List (Step α) → Bool
  | [] => mode
  | step :: steps => Step.modeAfterAll (step.modeAfter mode) steps

end

variable {s : Solver α}

theorem rowMode_performIf {check : Except Error Unit} {edit : Engine.Edit α}
    (h : ∀ mode, edit.modeAfter mode = mode) :
    (s.performIf check edit).2.engine.rowMode = s.engine.rowMode := by
  cases check with
  | error error => rfl
  | ok u => exact (Engine.rowMode_perform s.engine edit).trans (h _)

theorem rowMode_performWith {e : Expr α} {edit : Listing α → Engine.Edit α}
    (h : ∀ l mode, (edit l).modeAfter mode = mode) :
    (s.performWith e edit).2.engine.rowMode = s.engine.rowMode := by
  rw [performWith]
  cases s.workspace.layOut e with
  | error error => rfl
  | ok workspace => exact (Engine.rowMode_perform s.engine _).trans (h _ _)

theorem rowMode_addConstraint (s : Solver α) (c : Constraint α) :
    (s.addConstraint c).2.engine.rowMode = s.engine.rowMode :=
  rowMode_performWith fun _ _ => rfl

theorem rowMode_setRow (s : Solver α) (row : ℕ) (e : Expr α) :
    (s.setRow row e).2.engine.rowMode = s.engine.rowMode := by
  rw [setRow]
  cases s.checkRow row with
  | error error => rfl
  | ok u => exact rowMode_performWith fun _ _ => rfl

theorem rowMode_limitColumn (s : Solver α) (column : ℕ) (factor bound : α) :
    (s.limitColumn column factor bound).2.engine.rowMode = s.engine.rowMode := by
  rw [limitColumn]
  cases s.checkColumn column with
  | error error => rfl
  | ok u => exact rowMode_addConstraint s _

theorem rowMode_editRow (s : Solver α) (row : ℕ) (edit : RowEdit α) :
    (s.editRow row edit).2.engine.rowMode = s.engine.rowMode := by
  cases edit with
  | values e => exact rowMode_setRow s row e
  | dense values => exact rowMode_performIf fun _ => rfl
  | name name => exact rowMode_performIf fun _ => rfl
  | relation relation => exact rowMode_performIf fun _ => rfl
  | rightHandSide x => exact rowMode_performIf fun _ => rfl
  | range width => exact rowMode_performIf fun _ => rfl

theorem rowMode_editColumn (s : Solver α) (column : ℕ) (edit : ColumnEdit α) :
    (s.editColumn column edit).2.engine.rowMode = s.engine.rowMode := by
  refine rowMode_performIf ?_
  cases edit with
  | _ => exact fun _ => rfl

/-- Whatever is done with the mode switched on: the mode is off afterwards if it was off before, and
else it is what was left of it. -/
theorem rowMode_bulkInsert {β : Type} (body : Solver α → β × Solver α) (s : Solver α) :
    (s.bulkInsert body).2.engine.rowMode = (s.engine.rowMode &&
      (body { s with engine := (s.engine.perform (.setRowMode true)).2 }).2.engine.rowMode) := by
  rw [bulkInsert]
  cases hmode : s.engine.rowMode with
  | true =>
      rw [Engine.perform_setRowMode_of_on hmode]
      rfl
  | false =>
      have haccepted : (s.engine.perform (.setRowMode true)).1 = true := by
        simp [Engine.perform, Engine.Edit.result?, Engine.setRowMode?, hmode]
      simp only [haccepted, Bool.false_and, if_true]
      exact Engine.rowMode_perform _ (.setRowMode false)

mutual

theorem rowMode_step (s : Solver α) (step : Step α) :
    (s.step step).2.engine.rowMode = step.modeAfter s.engine.rowMode := by
  cases step with
  | addConstraint c => exact rowMode_addConstraint s c
  | setRow row e => exact rowMode_setRow s row e
  | setObjective e => exact rowMode_performWith fun _ _ => rfl
  | deleteColumn column => exact rowMode_performIf fun _ => rfl
  | deleteConstraint row => exact rowMode_performIf fun _ => rfl
  | setElement row column x => exact rowMode_performIf fun _ => rfl
  | limitColumn column factor bound => exact rowMode_limitColumn s column factor bound
  | onRow row edit => exact rowMode_editRow s row edit
  | onColumn column edit => exact rowMode_editColumn s column edit
  | engine edit => exact Engine.rowMode_perform s.engine edit
  | bulk steps =>
      have hinside :=
        rowMode_steps { s with engine := (s.engine.perform (.setRowMode true)).2 } steps
      rw [Engine.rowMode_perform] at hinside
      refine (rowMode_bulkInsert _ s).trans ?_
      exact congrArg (s.engine.rowMode && ·) hinside

theorem rowMode_steps (s : Solver α) (steps : List (Step α)) :
    (s.steps steps).engine.rowMode = Step.modeAfterAll s.engine.rowMode steps := by
  match steps with
  | [] => rfl
  | first :: rest =>
      have hrest := rowMode_steps (s.step first).2 rest
      rw [rowMode_step s first] at hrest
      exact hrest

end

/-- Adding rows in bulk leaves the mode as it found it just if it found it off, or if the steps in
between, which start with the mode on, leave it on. -/
theorem bulk_restores_iff (s : Solver α) (steps : List (Step α)) :
    (s.step (.bulk steps)).2.engine.rowMode = s.engine.rowMode ↔
      s.engine.rowMode = false ∨ Step.modeAfterAll true steps = true := by
  rw [rowMode_step, Step.modeAfter]
  cases s.engine.rowMode with
  | false => simp
  | true => simp

/-- A solver for an empty model of one variable that is in the row adding mode. -/
def adding : Solver Float := ((create 0 1 .standard).step (.engine (.setRowMode true))).2

/-- A mode that was on before is off after a solve in between, and after it was switched off in
between. -/
theorem bulk_leaves_mode_off :
    adding.engine.rowMode = true ∧
      (adding.step (.bulk [.engine (.solve fun _ => 0)])).2.engine.rowMode = false ∧
      (adding.step (.bulk [.engine (.setRowMode false)])).2.engine.rowMode = false := by
  decide +kernel

end Solver
end LinProg
