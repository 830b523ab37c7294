/-
Engines as programs on arrays.

Whatever a new engine is asked to do, with whatever arguments and scalars,
and whatever is read from it on the way, no access is to a place that is not
there and no index is lowered below zero.  What carries this through all
edits is how an engine stores its model: by increasing columns, all of which
are there.  The conversion, both loops of the simplex method and the
translation of their solutions are covered for any limit on the number of
rounds and for any size of infinity, not only for those that a solve uses.
-/
import LinProg.Proofs.Access.Edits

namespace LinProg

open Checked

variable {α : Type} [Scalar α]

/-- However a model is converted and minimised, and whatever solution comes of it, no access is to
a place that is not there. -/
structure Model.SolvesInside (m : Model α) : Prop where
  convert : ∀ infinity, m.standardFormM? infinity = .ok (m.standardForm infinity).toOption
  minimize : ∀ infinity f, m.standardForm infinity = .ok f → ∀ bound tolerances control,
    f.minimizeM bound tolerances control = .ok (f.minimizeWithin bound tolerances control)
  translate : ∀ infinity f, m.standardForm infinity = .ok f → ∀ bound tolerances control b,
    (f.minimizeWithin bound tolerances control).verdict.solution? = some b →
      Solution.ofBasicM m f b = .ok (Solution.ofBasic m f b)

theorem Model.solvesInside {m : Model α} (hm : m.Canonical) : m.SolvesInside where
  convert _ := standardFormM?_eq hm.closed
  minimize _ _ hf bound tolerances control :=
    StandardForm.minimizeM_eq (fits_standardForm hf) bound tolerances control
  translate _ _ hf _ _ _ _ hb :=
    Solution.ofBasicM_eq hm.listed hm.closed (fits_standardForm hf)
      (StandardForm.length_values_minimizeWithin (fits_standardForm hf) hb)

namespace Engine

variable {e : Engine α}

/-! ## Solves -/

/-- Solve the model.  The objective is read at the end, for the record. -/
def solveM (clock : Clock) (e : Engine α) : Checked (Engine α) := do
  match ← e.model.standardFormM? e.config.infinity with
  | none => return { e with rowMode := false, solution := none, status := .infeasible }
  | some f => do
      let outcome ← f.minimizeM Tableau.moveBound e.tolerances (e.control clock)
      let solution ← match outcome.verdict.solution? with
        | none => .ok none
        | some b => some <$> Solution.ofBasicM e.model f b
      let e' : Engine α :=
        { e with
          rowMode := false
          status := outcome.verdict.status
          solution
          iterations := outcome.iterations
          abort := e.abort.map fun a => { a with asked := a.asked + outcome.trace.length } }
      let _ ← e'.objectiveM?
      return e'

theorem solveM_eq (he : e.model.Canonical) (clock : Clock) :
    e.solveM clock = .ok (e.solve clock) := by
  rw [solveM, Model.standardFormM?_eq he.closed, ok_bind, solve]
  cases hform : e.model.standardForm e.config.infinity with
  | error o => rfl
  | ok f =>
      have hf : f.Fits e.model := Model.fits_standardForm hform
      have hminimize := StandardForm.minimizeM_eq hf Tableau.moveBound e.tolerances
        (e.control clock)
      rw [StandardForm.minimizeWithin_moveBound] at hminimize
      simp only [Except.toOption, hminimize, ok_bind]
      cases hb : (f.minimize e.tolerances (e.control clock)).verdict.solution? with
      | none => rfl
      | some b =>
          have hlen : b.values.length = f.nrColumns :=
            StandardForm.length_values_minimizeWithin hf hb
          simp only [Solution.ofBasicM_eq he.listed he.closed hf hlen, map_ok, ok_bind]
          rfl

/-! ## All edits -/

def parsedM (e : Engine α) (text : String) (edit : List α → Checked (Tried α)) :
    Checked (Tried α) :=
  match Text.numbers? text with
  | none => e.refuse
  | some values => edit values

omit [Scalar α] in
/-- Start or end the adding of rows.  The answer is whether that changes anything. -/
def setRowModeM (e : Engine α) (enabled : Bool) : Checked (Tried α) :=
  .ok (e.rowMode != enabled, { e with rowMode := enabled })

def performM (e : Engine α) : Edit α → Checked (Tried α)
  | .appendConstraint l relation b => e.appendConstraintM l relation b
  | .appendConstraintDense values relation b =>
      e.appendConstraintM (Listing.ofDense 1 values) relation b
  | .appendConstraintText text relation b =>
      e.parsedM text fun values => e.appendConstraintM (Listing.ofDense 1 values) relation b
  | .setRow row l => e.setRowM row l
  | .setRowDense row values => e.setRowM row (Listing.ofDense 1 values)
  | .setObjective l => e.setObjectiveM l
  | .setObjectiveDense values => e.setObjectiveM (Listing.ofDense 1 values)
  | .setObjectiveText text =>
      e.parsedM text fun values => e.setObjectiveM (Listing.ofDense 1 values)
  | .appendColumn l => e.appendColumnM l
  | .appendColumnDense values => e.appendColumnM (Listing.ofDense 0 values)
  | .appendColumnText text =>
      e.parsedM text fun values => e.appendColumnM (Listing.ofDense 0 values)
  | .setColumn column l => e.setColumnM column l
  | .setColumnDense column values => e.setColumnM column (Listing.ofDense 0 values)
  | .deleteColumn column => e.deleteColumnM column
  | .deleteConstraint row => e.deleteConstraintM row
  | .setElement row column x => e.setElementM row column x
  | .setRightHandSide row x => e.setRightHandSideM row x
  | .setRightHandSides values => e.setRightHandSidesM values
  | .setRightHandSidesText text => e.parsedM text e.setRightHandSidesM
  | .setRelation row relation => e.editRowM row fun r => { r with relation := relation }
  | .setRange row width =>
      e.editRowM row fun r => { r with range := if e.isInfinite width then none else some width }
  | .setBounds column lower upper => e.setBoundsM column lower upper
  | .setLower column lower => e.setLowerM column lower
  | .setUpper column upper => e.setUpperM column upper
  | .setUnbounded column => e.setBoundsM column (-e.config.infinity) e.config.infinity
  | .setRowName row name => e.setRowNameM row name
  | .setColumnName column name => e.setColumnNameM column name
  | .setTitle name => accept (e.setTitle name)
  | .setRowMode enabled => e.setRowModeM enabled
  | .setSense sense => accept (e.setSense sense)
  | .setInfinity infinity => accept (e.setInfinity infinity)
  | .setConfig config => accept (e.setConfig config)
  | .setAbort answer => accept (e.setAbort answer)
  | .clearAbort => accept e.clearAbort
  | .solve clock => do accept (← e.solveM clock)

def performAllM (e : Engine α) (edits : List (Edit α)) : Checked (Engine α) :=
  edits.foldlM (fun e edit => do return (← e.performM edit).2) e

omit [Scalar α] in
theorem setRowModeM_eq (e : Engine α) (enabled : Bool) :
    e.setRowModeM enabled = .ok (e.answer (e.setRowMode? enabled)) := by
  rw [setRowModeM, setRowMode?]
  split
  · rename_i h
    subst h
    rw [bne_self_eq_false]
    rfl
  · rename_i h
    rw [bne_iff_ne.mpr h]
    rfl

section Text

variable {text : String} {edit : List α → Checked (Tried α)}

theorem parsedM_of_some {values : List α} (h : Text.numbers? text = some values) :
    e.parsedM text edit = edit values := by rw [parsedM, h]

theorem parsedM_of_none (h : Text.numbers? text = (none : Option (List α))) :
    e.parsedM text edit = e.refuse := by rw [parsedM, h]

end Text

theorem Edit.ComesTo.performM_eq {edit d : Edit α} (h : edit.ComesTo e d) :
    e.performM edit = e.performM d := by
  induction h with
  | text hspells hvalues _ ih =>
      refine Eq.trans ?_ ih
      cases hspells <;> exact parsedM_of_some hvalues
  | @setLower column bounds lower hbounds =>
      show e.setLowerM column lower = e.setBoundsM column lower bounds.2
      rw [setLowerM, boundsM?_eq, hbounds, ok_bind]
  | @setUpper column bounds upper hbounds =>
      show e.setUpperM column upper = e.setBoundsM column bounds.1 upper
      rw [setUpperM, boundsM?_eq, hbounds, ok_bind]
  | _ => rfl

theorem Edit.Unread.performM_eq {edit : Edit α} (h : edit.Unread e) :
    e.performM edit = e.refuse := by
  cases h with
  | text hspells hnone => cases hspells <;> exact parsedM_of_none hnone
  | setLower lower hnone => rw [performM, setLowerM, boundsM?_eq, hnone, ok_bind]
  | setUpper upper hnone => rw [performM, setUpperM, boundsM?_eq, hnone, ok_bind]

theorem performM_eq_of_direct (he : e.model.Canonical) {edit : Edit α} (h : edit.Direct) :
    e.performM edit = .ok (e.answer (edit.result? e)) := by
  cases h with
  | appendConstraint l relation b => exact appendConstraintM_eq e l relation b
  | setRow row l => exact setRowM_eq e row l
  | setObjective l => exact setObjectiveM_eq e l
  | appendColumn l => exact appendColumnM_eq he.listed l
  | setColumn column l => exact setColumnM_eq he.listed column l
  | deleteColumn column => exact deleteColumnM_eq e column
  | deleteConstraint row => exact deleteConstraintM_eq e row
  | setElement row column x => exact setElementM_eq he.listed row column x
  | setRightHandSide row x => exact editRowM_eq e row _
  | setRightHandSides values => exact setRightHandSidesM_eq e values
  | setRelation row relation => exact editRowM_eq e row _
  | setRange row width => exact editRowM_eq e row _
  | setBounds column lower upper => exact setBoundsM_eq e column lower upper
  | setRowName row name => exact setRowNameM_eq e row name
  | setColumnName column name => exact setColumnNameM_eq e column name
  | setTitle name => rfl
  | setRowMode enabled => exact setRowModeM_eq e enabled
  | setSense sense => rfl
  | setInfinity infinity => rfl
  | setConfig config => rfl
  | setAbort answer => rfl
  | clearAbort => rfl
  | solve clock =>
      rw [performM, solveM_eq he]
      rfl

/-- An edit in place has the answer, and leaves the engine, that it has as an edit with or without
a result. -/
theorem performM_eq (he : e.model.Canonical) (edit : Edit α) :
    e.performM edit = .ok (e.perform edit) := by
  rw [perform_eq_answer]
  rcases Edit.comesTo_or_unread e edit with ⟨d, hcomes⟩ | hunread
  · rw [hcomes.performM_eq, hcomes.result?_eq]
    exact performM_eq_of_direct he hcomes.isDirect
  · rw [hunread.performM_eq, hunread.result?_eq]
    rfl

theorem performAllM_eq (he : e.model.Canonical) (edits : List (Edit α)) :
    e.performAllM edits = .ok (e.performAll edits) := by
  refine (foldlM_eq_ok (fun e : Engine α => e.model.Canonical) ?_ he).1
  intro e he edit _
  rw [performM_eq he]
  exact ⟨rfl, canonical_perform he edit⟩

/-! ## Every engine -/

/-- Whatever was tried on a new engine, with every access checked it came to be the same engine;
and whatever is tried on it next, read from it or computed from its model is the same as well, so
that no access ever is to a place that is not there. -/
theorem accesses_inside (rows columns : ℕ) (config : Config α) (edits : List (Edit α)) :
    let e := (create rows columns config).performAll edits
    (create rows columns config).performAllM edits = .ok e ∧
      (∀ edit, e.performM edit = .ok (e.perform edit)) ∧
      e.ReadsInside ∧ e.model.SolvesInside := by
  intro e
  have hblank := Model.canonical_blank rows columns config.infinity
  have hnew : (create rows columns config).Fresh := ⟨rfl, rfl, rfl⟩
  have hm : e.model.Canonical := canonical_create_performAll rows columns config edits
  have hconsistent : e.Consistent := (consistent_performAll hblank hnew.consistent edits).1
  exact ⟨performAllM_eq hblank edits, performM_eq hm, readsInside hm hconsistent,
    Model.solvesInside hm⟩

end Engine
end LinProg
