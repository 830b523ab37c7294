/-
What a rejected call leaves behind.

A call on a solver first checks the row and the column that it is given.
Then an expression, if there is one, is laid out, and at last the engine
tries one edit.  An error comes from the check or from the expression, before
anything has been touched; a refusal comes from the engine, which then is as
it was.  The engine keeps its side also where it writes in place and row by
row, and so does every solver, since all that a session does to its engine is
to try edits.
-/
import LinProg.Proofs.Access.Engine
import LinProg.Solver.Step

namespace LinProg

variable {α : Type} [Scalar α]

namespace Engine

theorem perform_of_refused {e : Engine α} {edit : Edit α} (h : (e.perform edit).1 = false) :
    (e.perform edit).2 = e := by
  rw [perform] at h ⊢
  split at h
  · cases h
  · rfl

section Places

omit [Scalar α]

variable {e : Engine α} {row column : ℕ}

theorem exists_row? (h : 1 ≤ row ∧ row ≤ e.nrRows) : ∃ r, e.row? row = some r := by
  obtain ⟨i, rfl⟩ : ∃ i, row = i + 1 := ⟨row - 1, by omega⟩
  exact ⟨_, Option.bind_eq_some_iff.mpr
    ⟨i, rowIndex?_eq_some.mpr ⟨rfl, h.2⟩, List.getElem?_eq_getElem h.2⟩⟩

theorem exists_column? (h : 1 ≤ column ∧ column ≤ e.nrColumns) :
    ∃ c, e.column? column = some c := by
  obtain ⟨j, rfl⟩ : ∃ j, column = j + 1 := ⟨column - 1, by omega⟩
  exact ⟨_, Option.bind_eq_some_iff.mpr
    ⟨j, columnIndex?_eq_some.mpr ⟨rfl, h.2⟩, List.getElem?_eq_getElem h.2⟩⟩

theorem row?_eq_none (h : ¬ (1 ≤ row ∧ row ≤ e.nrRows)) : e.row? row = none := by
  rw [row?, rowIndex?_eq_none h]
  rfl

theorem column?_eq_none (h : ¬ (1 ≤ column ∧ column ≤ e.nrColumns)) : e.column? column = none := by
  rw [column?, columnIndex?_eq_none h]
  rfl

end Places

theorem performAll_append (e : Engine α) (first rest : List (Edit α)) :
    e.performAll (first ++ rest) = (e.performAll first).performAll rest :=
  List.foldl_append

end Engine

namespace Solver

/-! ## Calls and what they check -/

/-- The row that an element is looked for in; row 0 is the objective and always there. -/
def elementRow? (row : ℕ) : Option ℕ := if row = 0 then none else some row

namespace Step

def row? : Step α → Option ℕ
  | setRow row _ => some row
  | deleteConstraint row => some row
  | setElement row _ _ => elementRow? row
  | onRow row _ => some row
  | _ => none

def column? : Step α → Option ℕ
  | deleteColumn column => some column
  | setElement _ column _ => some column
  | limitColumn column _ _ => some column
  | onColumn column _ => some column
  | _ => none

/-- What a call checks first. -/
def check (s : Solver α) : Step α → Except Error Unit
  | setRow row _ => s.checkRow row
  | deleteConstraint row => s.checkRow row
  | onRow row _ => s.checkRow row
  | deleteColumn column => s.checkColumn column
  | limitColumn column _ _ => s.checkColumn column
  | onColumn column _ => s.checkColumn column
  | setElement row column _ => s.checkElement row column
  | _ => .ok ()

end Step

/-- An index that is given, if one is, is one of `n`. -/
def Inside (n : ℕ) (index? : Option ℕ) : Prop := ∀ i, index? = some i → 1 ≤ i ∧ i ≤ n

/-- An answer reports the index that is not one of the model, and only if there is one; of two of
them the row is reported. -/
structure Ranged {β : Type} (s : Solver α) (row? column? : Option ℕ) (answer : Except Error β) :
    Prop where
  row : ∀ i n, answer = .error (.rowOutOfRange i n) ↔
    n = s.engine.nrRows ∧ row? = some i ∧ ¬ (1 ≤ i ∧ i ≤ n)
  column : ∀ j n, answer = .error (.columnOutOfRange j n) ↔
    n = s.engine.nrColumns ∧ column? = some j ∧ ¬ (1 ≤ j ∧ j ≤ n) ∧
      Inside s.engine.nrRows row?

/-- What a call can come to, if it checks something first: the check is not passed, or the
expression is not valid, or the engine tries an edit. -/
inductive Reports (s : Solver α) (check : Except Error Unit) : Answer × Solver α → Prop
  | outside {error : Error} : check = .error error → Reports s check (.error error, s)
  | invalid : check = .ok () → Reports s check (.error .invalidColumn, s)
  | tried {s' : Solver α} (edit : Engine.Edit α) : check = .ok () →
      s'.engine = (s.engine.perform edit).2 →
      Reports s check (.ok (s.engine.perform edit).1, s')

variable {s : Solver α} {check : Except Error Unit} {result : Answer × Solver α}

/-! ## What a call comes to -/

theorem reports_perform (s : Solver α) (edit : Engine.Edit α) :
    s.Reports (.ok ()) (s.perform edit) := .tried edit rfl rfl

theorem reports_performWith (s : Solver α) (e : Expr α) (edit : Listing α → Engine.Edit α) :
    s.Reports (.ok ()) (s.performWith e edit) := by
  rw [performWith, Workspace.layOut]
  by_cases h : (e.terms.any fun t => t.column == 0) = true
  · rw [if_pos h]
    exact .invalid rfl
  · rw [if_neg h]
    exact .tried _ rfl rfl

theorem reports_performIf (s : Solver α) (check : Except Error Unit) (edit : Engine.Edit α) :
    s.Reports check (s.performIf check edit) := by
  cases check with
  | error error => exact .outside rfl
  | ok u => exact reports_perform s edit

theorem reports_setRow (s : Solver α) (row : ℕ) (e : Expr α) :
    s.Reports (s.checkRow row) (s.setRow row e) := by
  rw [setRow]
  cases s.checkRow row with
  | error error => exact .outside rfl
  | ok u => exact reports_performWith s e _

theorem reports_limitColumn (s : Solver α) (column : ℕ) (factor bound : α) :
    s.Reports (s.checkColumn column) (s.limitColumn column factor bound) := by
  rw [limitColumn]
  cases s.checkColumn column with
  | error error => exact .outside rfl
  | ok u => exact reports_performWith s _ _

theorem reports_editRow (s : Solver α) (row : ℕ) (edit : RowEdit α) :
    s.Reports (s.checkRow row) (s.editRow row edit) := by
  cases edit with
  | values e => exact reports_setRow s row e
  | dense values => exact reports_performIf s _ _
  | name name => exact reports_performIf s _ _
  | relation relation => exact reports_performIf s _ _
  | rightHandSide x => exact reports_performIf s _ _
  | range width => exact reports_performIf s _ _

/-- A step is one of many in bulk, or it is a call that comes to one of the three. -/
theorem reports_step (s : Solver α) (step : Step α) :
    (∃ steps, step = .bulk steps) ∨ s.Reports (step.check s) (s.step step) := by
  cases step with
  | bulk steps => exact Or.inl ⟨steps, rfl⟩
  | addConstraint c =>
      exact Or.inr (reports_performWith s c.expression fun l =>
        .appendConstraint l c.relation c.rightHandSide)
  | setRow row e => exact Or.inr (reports_setRow s row e)
  | setObjective e => exact Or.inr (reports_performWith s e _)
  | deleteColumn column => exact Or.inr (reports_performIf s _ _)
  | deleteConstraint row => exact Or.inr (reports_performIf s _ _)
  | setElement row column x => exact Or.inr (reports_performIf s _ _)
  | limitColumn column factor bound => exact Or.inr (reports_limitColumn s column factor bound)
  | onRow row edit => exact Or.inr (reports_editRow s row edit)
  | onColumn column edit => exact Or.inr (reports_performIf s _ _)
  | engine edit => exact Or.inr (reports_perform s edit)

/-! ## What is left behind -/

theorem Reports.engine_eq (h : s.Reports check result) (hrejected : result.1 ≠ .ok true) :
    result.2.engine = s.engine := by
  cases h with
  | outside _ => rfl
  | invalid _ => rfl
  | tried edit _ hengine =>
      rw [hengine]
      refine Engine.perform_of_refused ?_
      cases haccepted : (s.engine.perform edit).1 with
      | false => rfl
      | true => exact absurd (congrArg Except.ok haccepted) hrejected

theorem Reports.eq_of_error (h : s.Reports check result) {error : Error}
    (herror : result.1 = .error error) : result.2 = s := by
  cases h with
  | outside _ => rfl
  | invalid _ => rfl
  | tried _ _ _ => cases herror

theorem error_eq_error_iff {β γ : Type} {error other : Error} :
    (.error other : Except Error β) = .error error ↔
      (.error other : Except Error γ) = .error error :=
  ⟨fun h => congrArg Except.error (Except.error.inj h),
    fun h => congrArg Except.error (Except.error.inj h)⟩

omit [Scalar α] in
/-- Whether indices are reported as they should be depends on the errors only. -/
theorem Ranged.of_same {β γ : Type} {row? column? : Option ℕ} {a : Except Error β}
    {b : Except Error γ} (h : s.Ranged row? column? a)
    (hsame : ∀ error, error ≠ .invalidColumn → (b = .error error ↔ a = .error error)) :
    s.Ranged row? column? b := by
  refine ⟨?_, ?_⟩
  · intro i n
    rw [hsame (.rowOutOfRange i n) nofun]
    exact h.row i n
  · intro j n
    rw [hsame (.columnOutOfRange j n) nofun]
    exact h.column j n

theorem Reports.ranged (h : s.Reports check result) {row? column? : Option ℕ}
    (hcheck : s.Ranged row? column? check) : s.Ranged row? column? result.1 := by
  have hsame : ∀ error, error ≠ .invalidColumn →
      (result.1 = .error error ↔ check = .error error) := by
    intro error herror
    cases h with
    | outside hfailed =>
        rw [hfailed]
        exact error_eq_error_iff
    | invalid hpassed =>
        rw [hpassed]
        exact ⟨fun h => absurd (Except.error.inj h).symm herror, nofun⟩
    | tried edit hpassed _ =>
        rw [hpassed]
        exact ⟨nofun, nofun⟩
  exact hcheck.of_same hsame

/-! ## Checks -/

section Ranged

omit [Scalar α]

variable {β : Type} {row? column? : Option ℕ} {row column : ℕ}

theorem inside_none (n : ℕ) : Inside n none := nofun

theorem inside_some {i n : ℕ} (h : 1 ≤ i ∧ i ≤ n) : Inside n (some i) := by
  rintro j ⟨⟩
  exact h

theorem ranged_ok (hrow : Inside s.engine.nrRows row?)
    (hcolumn : Inside s.engine.nrColumns column?) (x : β) : s.Ranged row? column? (.ok x) := by
  refine ⟨fun i n => ⟨nofun, ?_⟩, fun j n => ⟨nofun, ?_⟩⟩
  · rintro ⟨rfl, hi, hout⟩
    exact absurd (hrow i hi) hout
  · rintro ⟨rfl, hj, hout, -⟩
    exact absurd (hcolumn j hj) hout

theorem ranged_row (hout : ¬ (1 ≤ row ∧ row ≤ s.engine.nrRows)) :
    s.Ranged (some row) column? (.error (.rowOutOfRange row s.engine.nrRows) : Except Error β) := by
  refine ⟨fun i n => ⟨?_, ?_⟩, fun j n => ⟨nofun, ?_⟩⟩
  · rintro ⟨⟩
    exact ⟨rfl, rfl, hout⟩
  · rintro ⟨rfl, ⟨⟩, -⟩
    rfl
  · rintro ⟨-, -, -, hrow⟩
    exact absurd (hrow row rfl) hout

theorem ranged_column (hrow : Inside s.engine.nrRows row?)
    (hout : ¬ (1 ≤ column ∧ column ≤ s.engine.nrColumns)) :
    s.Ranged row? (some column)
      (.error (.columnOutOfRange column s.engine.nrColumns) : Except Error β) := by
  refine ⟨fun i n => ⟨nofun, ?_⟩, fun j n => ⟨?_, ?_⟩⟩
  · rintro ⟨rfl, hi, hi'⟩
    exact absurd (hrow i hi) hi'
  · rintro ⟨⟩
    exact ⟨rfl, rfl, hout, hrow⟩
  · rintro ⟨rfl, ⟨⟩, -, -⟩
    rfl

theorem ranged_checkRow (s : Solver α) (row : ℕ) : s.Ranged (some row) none (s.checkRow row) := by
  rw [checkRow]
  split
  · rename_i hin
    exact ranged_ok (inside_some hin) (inside_none _) ()
  · rename_i hout
    exact ranged_row hout

/-- A column is looked at after the row, if there is one, has been found in range. -/
theorem ranged_checkColumn (hrow : Inside s.engine.nrRows row?) (column : ℕ) :
    s.Ranged row? (some column) (s.checkColumn column) := by
  rw [checkColumn]
  split
  · rename_i hin
    exact ranged_ok hrow (inside_some hin) ()
  · rename_i hout
    exact ranged_column hrow hout

theorem ranged_checkElement (s : Solver α) (row column : ℕ) :
    s.Ranged (elementRow? row) (some column) (s.checkElement row column) := by
  rw [checkElement, elementRow?]
  by_cases hzero : row = 0
  · rw [if_pos hzero, if_neg (not_not.mpr hzero)]
    exact ranged_checkColumn (inside_none _) column
  · rw [if_neg hzero, if_pos hzero, checkRow]
    split
    · rename_i hin
      exact ranged_checkColumn (inside_some hin) column
    · rename_i hout
      exact ranged_row hout

end Ranged

omit [Scalar α] in
theorem ranged_check (s : Solver α) (step : Step α) :
    s.Ranged step.row? step.column? (step.check s) := by
  cases step with
  | setRow row e => exact ranged_checkRow s row
  | deleteConstraint row => exact ranged_checkRow s row
  | onRow row edit => exact ranged_checkRow s row
  | deleteColumn column => exact ranged_checkColumn (inside_none _) column
  | limitColumn column factor bound => exact ranged_checkColumn (inside_none _) column
  | onColumn column edit => exact ranged_checkColumn (inside_none _) column
  | setElement row column x => exact ranged_checkElement s row column
  | _ => exact ranged_ok (inside_none _) (inside_none _) ()

theorem ranged_step (s : Solver α) (step : Step α) :
    s.Ranged step.row? step.column? (s.step step).1 := by
  rcases reports_step s step with ⟨steps, rfl⟩ | h
  · exact ranged_ok (inside_none _) (inside_none _) true
  · exact h.ranged (ranged_check s step)

/-! ## Views -/

theorem ranged_element (s : Solver α) (row column : ℕ) :
    s.Ranged (elementRow? row) (some column) (s.element row column) := by
  refine (ranged_checkElement s row column).of_same ?_
  intro error _
  rw [element]
  cases s.checkElement row column with
  | error other =>
      exact error_eq_error_iff
  | ok u => exact ⟨nofun, nofun⟩

theorem ranged_rowView (s : Solver α) (row : ℕ) : s.Ranged (some row) none (s.row row) := by
  rw [Solver.row, Engine.rowName?_eq_map]
  by_cases hin : 1 ≤ row ∧ row ≤ s.engine.nrRows
  · obtain ⟨r, hr⟩ := Engine.exists_row? hin
    obtain ⟨i, rfl⟩ : ∃ i, row = i + 1 := ⟨row - 1, by omega⟩
    have hvalues : s.engine.rowValues? (i + 1)
        = some (r.coefficients.toDense s.engine.nrColumns) := by
      show (s.engine.row? (i + 1)).map _ = _
      rw [hr]
      rfl
    rw [hr, hvalues]
    exact ranged_ok (inside_some hin) (inside_none _) _
  · rw [Engine.row?_eq_none hin]
    exact ranged_row hin

theorem ranged_columnView (s : Solver α) (column : ℕ) :
    s.Ranged none (some column) (s.column column) := by
  rw [Solver.column, Engine.columnName?_eq_map]
  by_cases hin : 1 ≤ column ∧ column ≤ s.engine.nrColumns
  · obtain ⟨c, hc⟩ := Engine.exists_column? hin
    have hvalues : s.engine.columnValues? column
        = some (s.engine.model.columnValues (column - 1)) := by
      rw [Engine.columnValues?, Engine.columnIndex?, if_pos hin]
      rfl
    rw [hc, hvalues]
    exact ranged_ok (inside_none _) (inside_some hin) _
  · rw [Engine.column?_eq_none hin]
    exact ranged_column (inside_none _) hin

/-! ## Every solver -/

theorem Reports.exists_edits (h : s.Reports check result) :
    ∃ edits, result.2.engine = s.engine.performAll edits := by
  cases h with
  | outside _ => exact ⟨[], rfl⟩
  | invalid _ => exact ⟨[], rfl⟩
  | tried edit _ hengine => exact ⟨[edit], hengine⟩

mutual

/-- All that a step does to the engine is to try edits. -/
theorem exists_edits_step (s : Solver α) (step : Step α) :
    ∃ edits, (s.step step).2.engine = s.engine.performAll edits := by
  rcases reports_step s step with ⟨steps, rfl⟩ | h
  · obtain ⟨edits, hedits⟩ := exists_edits_steps (s.perform (.setRowMode true)).2 steps
    have hinside : ((s.perform (.setRowMode true)).2.steps steps).engine
        = s.engine.performAll (.setRowMode true :: edits) := hedits
    show ∃ edits, (if (s.engine.perform (.setRowMode true)).1 then
      (((s.perform (.setRowMode true)).2.steps steps).perform (.setRowMode false)).2
      else (s.perform (.setRowMode true)).2.steps steps).engine = s.engine.performAll edits
    split
    · refine ⟨.setRowMode true :: edits ++ [.setRowMode false], ?_⟩
      rw [Engine.performAll_append, ← hinside]
      rfl
    · exact ⟨_, hinside⟩
  · exact h.exists_edits

theorem exists_edits_steps (s : Solver α) (list : List (Step α)) :
    ∃ edits, (s.steps list).engine = s.engine.performAll edits := by
  match list with
  | [] => exact ⟨[], rfl⟩
  | first :: rest =>
      obtain ⟨edits, hfirst⟩ := exists_edits_step s first
      obtain ⟨later, hrest⟩ := exists_edits_steps (s.step first).2 rest
      refine ⟨edits ++ later, ?_⟩
      show ((s.step first).2.steps rest).engine = _
      rw [Engine.performAll_append, hrest, hfirst]

end

theorem canonical_create_steps (rows columns : ℕ) (config : Config α) (steps : List (Step α)) :
    ((create rows columns config).steps steps).engine.model.Canonical := by
  obtain ⟨edits, hedits⟩ := exists_edits_steps (create rows columns config) steps
  rw [hedits]
  exact Engine.canonical_create_performAll rows columns config edits

/-- Whatever a session with a new solver has come to: an edit that the engine refuses in place
leaves it as it was; a step that is not accepted leaves the engine as it was, and one that ends
with an error the workspace as well; and an index is reported exactly if it is outside of the
model, by steps and by views. -/
theorem rejected_unchanged (rows columns : ℕ) (config : Config α) (steps : List (Step α)) :
    let s := (create rows columns config).steps steps
    (∀ edit, ∃ accepted e', s.engine.performM edit = .ok (accepted, e') ∧
      s.engine.perform edit = (accepted, e') ∧ (accepted = false → e' = s.engine)) ∧
    (∀ step, ((s.step step).1 ≠ .ok true → (s.step step).2.engine = s.engine) ∧
      (∀ error, (s.step step).1 = .error error → (s.step step).2 = s) ∧
      s.Ranged step.row? step.column? (s.step step).1) ∧
    (∀ row column, s.Ranged (elementRow? row) (some column) (s.element row column)) ∧
    (∀ row, s.Ranged (some row) none (s.row row)) ∧
    ∀ column, s.Ranged none (some column) (s.column column) := by
  intro s
  have hm : s.engine.model.Canonical := canonical_create_steps rows columns config steps
  refine ⟨?_, ?_, ranged_element s, ranged_rowView s, ranged_columnView s⟩
  · intro edit
    exact ⟨_, _, Engine.performM_eq hm edit, rfl, Engine.perform_of_refused⟩
  · intro step
    rcases reports_step s step with ⟨steps, rfl⟩ | h
    · exact ⟨fun hrejected => absurd rfl hrejected, nofun, ranged_step s _⟩
    · exact ⟨h.engine_eq, fun _ => h.eq_of_error, ranged_step s step⟩

end Solver
end LinProg
