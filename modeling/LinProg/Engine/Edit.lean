/-
The edits of an engine as data, so that one can speak of sequences of
them.

An edit that is refused leaves the engine as it is and answers `false`.
-/
import LinProg.Engine.Attributes
import LinProg.Engine.Matrix
import LinProg.Engine.Solve

namespace LinProg
namespace Engine

/-- Everything that can be done to an engine. -/
inductive Edit (α : Type) where
  | appendConstraint (l : Listing α) (relation : Relation) (rightHandSide : α)
  | appendConstraintDense (values : List α) (relation : Relation) (rightHandSide : α)
  | appendConstraintText (text : String) (relation : Relation) (rightHandSide : α)
  | setRow (row : Nat) (l : Listing α)
  | setRowDense (row : Nat) (values : List α)
  | setObjective (l : Listing α)
  | setObjectiveDense (values : List α)
  | setObjectiveText (text : String)
  | appendColumn (l : Listing α)
  | appendColumnDense (values : List α)
  | appendColumnText (text : String)
  | setColumn (column : Nat) (l : Listing α)
  | setColumnDense (column : Nat) (values : List α)
  | deleteColumn (column : Nat)
  | deleteConstraint (row : Nat)
  | setElement (row column : Nat) (x : α)
  | setRightHandSide (row : Nat) (x : α)
  | setRightHandSides (values : List α)
  | setRightHandSidesText (text : String)
  | setRelation (row : Nat) (relation : Relation)
  | setRange (row : Nat) (width : α)
  | setBounds (column : Nat) (lower upper : α)
  | setLower (column : Nat) (lower : α)
  | setUpper (column : Nat) (upper : α)
  | setUnbounded (column : Nat)
  | setRowName (row : Nat) (name : String)
  | setColumnName (column : Nat) (name : String)
  | setTitle (name : String)
  | setRowMode (enabled : Bool)
  | setSense (sense : Sense)
  | setInfinity (infinity : α)
  | setConfig (config : Config α)
  | setAbort (answer : Nat → Bool)
  | clearAbort
  | solve (clock : Clock)

namespace Edit

variable {α : Type} [Scalar α]

/-- The engine after an edit, if it is not refused. -/
def result? (e : Engine α) : Edit α → Option (Engine α)
  | appendConstraint l relation b => e.appendConstraint? l relation b
  | appendConstraintDense values relation b => e.appendConstraintDense? values relation b
  | appendConstraintText text relation b => e.appendConstraintText? text relation b
  | setRow row l => e.setRow? row l
  | setRowDense row values => e.setRowDense? row values
  | setObjective l => e.setObjective? l
  | setObjectiveDense values => e.setObjectiveDense? values
  | setObjectiveText text => e.setObjectiveText? text
  | appendColumn l => e.appendColumn? l
  | appendColumnDense values => e.appendColumnDense? values
  | appendColumnText text => e.appendColumnText? text
  | setColumn column l => e.setColumn? column l
  | setColumnDense column values => e.setColumnDense? column values
  | deleteColumn column => e.deleteColumn? column
  | deleteConstraint row => e.deleteConstraint? row
  | setElement row column x => e.setElement? row column x
  | setRightHandSide row x => e.setRightHandSide? row x
  | setRightHandSides values => e.setRightHandSides? values
  | setRightHandSidesText text => e.setRightHandSidesText? text
  | setRelation row relation => e.setRelation? row relation
  | setRange row width => e.setRange? row width
  | setBounds column lower upper => e.setBounds? column lower upper
  | setLower column lower => e.setLower? column lower
  | setUpper column upper => e.setUpper? column upper
  | setUnbounded column => e.setUnbounded? column
  | setRowName row name => e.setRowName? row name
  | setColumnName column name => e.setColumnName? column name
  | setTitle name => some (e.setTitle name)
  | setRowMode enabled => e.setRowMode? enabled
  | setSense sense => some (e.setSense sense)
  | setInfinity infinity => some (e.setInfinity infinity)
  | setConfig config => some (e.setConfig config)
  | setAbort answer => some (e.setAbort answer)
  | clearAbort => some e.clearAbort
  | solve clock => some (e.solve clock)

end Edit

variable {α : Type} [Scalar α]

/-- Try an edit.  The answer says whether it was accepted. -/
def perform (e : Engine α) (edit : Edit α) : Bool × Engine α :=
  match edit.result? e with
  | some e' => (true, e')
  | none => (false, e)

def performAll (e : Engine α) (edits : List (Edit α)) : Engine α :=
  edits.foldl (fun e edit => (e.perform edit).2) e

end Engine
end LinProg
