/-
The forms in which an edit can be given.

The numbers of an edit are listed with their places, or they are given densely,
or as a text; and one bound of a column is written while the other one stays.
Each of these forms comes to an edit with a listing or with both bounds, unless
it cannot be read at all: a text may be no list of numbers, and there may be no
column whose bound could stay.  So what holds of every edit is shown for the
direct ones, and for the forms it is only to be seen that they look the same.
-/
import LinProg.Proofs.Engine.Accepted

namespace LinProg
namespace Engine

variable {α : Type} [Scalar α] {e e' : Engine α}

/-- The edits that take a text, each with the edit that takes numbers. -/
inductive Spells : (String → Edit α) → (List α → Edit α) → Prop where
  | appendConstraint (relation : Relation) (rightHandSide : α) :
      Spells (.appendConstraintText · relation rightHandSide)
        (.appendConstraintDense · relation rightHandSide)
  | setObjective : Spells .setObjectiveText .setObjectiveDense
  | appendColumn : Spells .appendColumnText .appendColumnDense
  | setRightHandSides : Spells .setRightHandSidesText .setRightHandSides

theorem Spells.result?_eq {spelled : String → Edit α} {edit : List α → Edit α}
    (h : Spells spelled edit) (text : String) (e : Engine α) :
    (spelled text).result? e = (Text.numbers? text).bind fun values => (edit values).result? e := by
  cases h with
  | appendConstraint relation b => rfl
  | setObjective => rfl
  | appendColumn => rfl
  | setRightHandSides => rfl

namespace Edit

/-- The edits that are given in the form in which they are done. -/
inductive Direct : Edit α → Prop
  | appendConstraint (l : Listing α) (relation : Relation) (b : α) :
      Direct (.appendConstraint l relation b)
  | setRow (row : ℕ) (l : Listing α) : Direct (.setRow row l)
  | setObjective (l : Listing α) : Direct (.setObjective l)
  | appendColumn (l : Listing α) : Direct (.appendColumn l)
  | setColumn (column : ℕ) (l : Listing α) : Direct (.setColumn column l)
  | deleteColumn (column : ℕ) : Direct (.deleteColumn column)
  | deleteConstraint (row : ℕ) : Direct (.deleteConstraint row)
  | setElement (row column : ℕ) (x : α) : Direct (.setElement row column x)
  | setRightHandSide (row : ℕ) (x : α) : Direct (.setRightHandSide row x)
  | setRightHandSides (values : List α) : Direct (.setRightHandSides values)
  | setRelation (row : ℕ) (relation : Relation) : Direct (.setRelation row relation)
  | setRange (row : ℕ) (width : α) : Direct (.setRange row width)
  | setBounds (column : ℕ) (lower upper : α) : Direct (.setBounds column lower upper)
  | setRowName (row : ℕ) (name : String) : Direct (.setRowName row name)
  | setColumnName (column : ℕ) (name : String) : Direct (.setColumnName column name)
  | setTitle (name : String) : Direct (.setTitle name)
  | setRowMode (enabled : Bool) : Direct (.setRowMode enabled)
  | setSense (sense : Sense) : Direct (.setSense sense)
  | setInfinity (infinity : α) : Direct (.setInfinity infinity)
  | setConfig (config : Config α) : Direct (.setConfig config)
  | setAbort (answer : ℕ → Bool) : Direct (.setAbort answer)
  | clearAbort : Direct .clearAbort
  | solve (clock : Clock) : Direct (.solve clock)

/-- One edit is on an engine another form of a direct one. -/
inductive ComesTo (e : Engine α) : Edit α → Edit α → Prop
  | direct {edit : Edit α} : edit.Direct → ComesTo e edit edit
  | appendConstraintDense (values : List α) (relation : Relation) (b : α) :
      ComesTo e (.appendConstraintDense values relation b)
        (.appendConstraint (Listing.ofDense 1 values) relation b)
  | setRowDense (row : ℕ) (values : List α) :
      ComesTo e (.setRowDense row values) (.setRow row (Listing.ofDense 1 values))
  | setObjectiveDense (values : List α) :
      ComesTo e (.setObjectiveDense values) (.setObjective (Listing.ofDense 1 values))
  | appendColumnDense (values : List α) :
      ComesTo e (.appendColumnDense values) (.appendColumn (Listing.ofDense 0 values))
  | setColumnDense (column : ℕ) (values : List α) :
      ComesTo e (.setColumnDense column values) (.setColumn column (Listing.ofDense 0 values))
  | text {spelled : String → Edit α} {edit : List α → Edit α} {text : String} {values : List α}
      {d : Edit α} : Spells spelled edit → Text.numbers? text = some values →
      ComesTo e (edit values) d → ComesTo e (spelled text) d
  | setLower {column : ℕ} {bounds : α × α} (lower : α) : e.bounds? column = some bounds →
      ComesTo e (.setLower column lower) (.setBounds column lower bounds.2)
  | setUpper {column : ℕ} {bounds : α × α} (upper : α) : e.bounds? column = some bounds →
      ComesTo e (.setUpper column upper) (.setBounds column bounds.1 upper)
  | setUnbounded (column : ℕ) :
      ComesTo e (.setUnbounded column) (.setBounds column (-e.config.infinity) e.config.infinity)

/-- An edit cannot be read on an engine. -/
inductive Unread (e : Engine α) : Edit α → Prop
  | text {spelled : String → Edit α} {edit : List α → Edit α} {text : String} :
      Spells spelled edit → Text.numbers? text = (none : Option (List α)) → Unread e (spelled text)
  | setLower {column : ℕ} (lower : α) : e.bounds? column = none →
      Unread e (.setLower column lower)
  | setUpper {column : ℕ} (upper : α) : e.bounds? column = none →
      Unread e (.setUpper column upper)

variable {edit d : Edit α}

theorem ComesTo.isDirect (h : edit.ComesTo e d) : d.Direct := by
  induction h with
  | direct hdirect => exact hdirect
  | text _ _ _ ih => exact ih
  | _ => constructor

theorem ComesTo.result?_eq (h : edit.ComesTo e d) : edit.result? e = d.result? e := by
  induction h with
  | text hspells hvalues _ ih => rw [hspells.result?_eq, hvalues, Option.bind_some, ih]
  | setLower lower hbounds => exact congrArg (Option.bind · _) hbounds
  | setUpper upper hbounds => exact congrArg (Option.bind · _) hbounds
  | _ => rfl

theorem Unread.result?_eq (h : edit.Unread e) : edit.result? e = none := by
  cases h with
  | text hspells hnone => rw [hspells.result?_eq, hnone, Option.bind_none]
  | setLower lower hnone => exact congrArg (Option.bind · _) hnone
  | setUpper upper hnone => exact congrArg (Option.bind · _) hnone

theorem comesTo_or_unread_text {spelled : String → Edit α} {numbers : List α → Edit α}
    (hspells : Spells spelled numbers) (hcomes : ∀ values, ∃ d, (numbers values).ComesTo e d)
    (text : String) : (∃ d, (spelled text).ComesTo e d) ∨ (spelled text).Unread e := by
  cases hvalues : (Text.numbers? text : Option (List α)) with
  | none => exact Or.inr (.text hspells hvalues)
  | some values =>
      obtain ⟨d, hd⟩ := hcomes values
      exact Or.inl ⟨d, .text hspells hvalues hd⟩

theorem comesTo_or_unread (e : Engine α) (edit : Edit α) :
    (∃ d, edit.ComesTo e d) ∨ edit.Unread e := by
  cases edit with
  | appendConstraintDense values relation b =>
      exact Or.inl ⟨_, .appendConstraintDense values relation b⟩
  | setRowDense row values => exact Or.inl ⟨_, .setRowDense row values⟩
  | setObjectiveDense values => exact Or.inl ⟨_, .setObjectiveDense values⟩
  | appendColumnDense values => exact Or.inl ⟨_, .appendColumnDense values⟩
  | setColumnDense column values => exact Or.inl ⟨_, .setColumnDense column values⟩
  | appendConstraintText text relation b =>
      exact comesTo_or_unread_text (.appendConstraint relation b)
        (fun values => ⟨_, .appendConstraintDense values relation b⟩) text
  | setObjectiveText text =>
      exact comesTo_or_unread_text .setObjective (fun values => ⟨_, .setObjectiveDense values⟩) text
  | appendColumnText text =>
      exact comesTo_or_unread_text .appendColumn (fun values => ⟨_, .appendColumnDense values⟩) text
  | setRightHandSidesText text =>
      exact comesTo_or_unread_text .setRightHandSides
        (fun values => ⟨_, .direct (.setRightHandSides values)⟩) text
  | setLower column lower =>
      cases hbounds : e.bounds? column with
      | none => exact Or.inr (.setLower lower hbounds)
      | some bounds => exact Or.inl ⟨_, .setLower lower hbounds⟩
  | setUpper column upper =>
      cases hbounds : e.bounds? column with
      | none => exact Or.inr (.setUpper upper hbounds)
      | some bounds => exact Or.inl ⟨_, .setUpper upper hbounds⟩
  | setUnbounded column => exact Or.inl ⟨_, .setUnbounded column⟩
  | _ => exact Or.inl ⟨_, .direct (by constructor)⟩

/-- An edit that is accepted is the form of a direct one that is accepted. -/
theorem exists_direct (h : edit.result? e = some e') :
    ∃ d, edit.ComesTo e d ∧ d.Direct ∧ d.result? e = some e' := by
  rcases comesTo_or_unread e edit with ⟨d, hd⟩ | hunread
  · exact ⟨d, hd, hd.isDirect, hd.result?_eq.symm.trans h⟩
  · cases hunread.result?_eq.symm.trans h

end Edit

end Engine
end LinProg
