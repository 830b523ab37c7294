/-
What an engine knows besides the matrix: right-hand sides, relations,
ranges, bounds, names, the sense of the objective, and the configuration.

Names belong to nobody's outcome, so naming something keeps the outcome;
every other edit forgets it.
-/
import LinProg.Engine.Basic
import LinProg.Text.Numbers

namespace LinProg
namespace Engine

variable {α : Type} [Scalar α]

def isInfinite (e : Engine α) (x : α) : Bool := Scalar.isInfinite e.config.infinity x

/-! ## Rows -/

def editRow? (e : Engine α) (row : Nat) (f : Row α → Row α) : Option (Engine α) := do
  let i ← e.rowIndex? row
  return e.withModel (← e.model.modifyRow? i f)

def setRightHandSide? (e : Engine α) (row : Nat) (x : α) : Option (Engine α) :=
  e.editRow? row fun r => { r with rightHandSide := x }

/-- Write the right-hand sides of the rows from `row` on. -/
def setRightHandSidesFrom? (row : Nat) : List α → Engine α → Option (Engine α)
  | [], e => some e
  | x :: xs, e => do setRightHandSidesFrom? (row + 1) xs (← e.setRightHandSide? row x)

def setRightHandSides? (e : Engine α) (values : List α) : Option (Engine α) := do
  guard (values.length = e.nrRows)
  setRightHandSidesFrom? 1 values e

def setRightHandSidesText? (e : Engine α) (text : String) : Option (Engine α) := do
  e.setRightHandSides? (← Text.numbers? text)

def setRelation? (e : Engine α) (row : Nat) (relation : Relation) : Option (Engine α) :=
  e.editRow? row fun r => { r with relation := relation }

/-- Let a row take the values of an interval of a given width; an infinite width is none. -/
def setRange? (e : Engine α) (row : Nat) (width : α) : Option (Engine α) :=
  e.editRow? row fun r => { r with range := if e.isInfinite width then none else some width }

/-! ## Bounds -/

def bounds? (e : Engine α) (column : Nat) : Option (α × α) :=
  (e.column? column).map fun c => (c.lower, c.upper)

/-- Write the bounds of a column, unless they are crossed; bounds beyond infinity are infinite. -/
def setBounds? (e : Engine α) (column : Nat) (lower upper : α) : Option (Engine α) := do
  let j ← e.columnIndex? column
  guard (¬ upper < lower)
  return e.withModel (← e.model.modifyColumn? j fun c =>
    { c with
      lower := Scalar.larger lower (-e.config.infinity)
      upper := Scalar.smaller upper e.config.infinity })

def setUnbounded? (e : Engine α) (column : Nat) : Option (Engine α) :=
  e.setBounds? column (-e.config.infinity) e.config.infinity

def setLower? (e : Engine α) (column : Nat) (lower : α) : Option (Engine α) := do
  let (_, upper) ← e.bounds? column
  e.setBounds? column lower upper

def setUpper? (e : Engine α) (column : Nat) (upper : α) : Option (Engine α) := do
  let (lower, _) ← e.bounds? column
  e.setBounds? column lower upper

def isUnbounded (e : Engine α) (column : Nat) : Bool :=
  (e.bounds? column).any fun (lower, upper) =>
    e.isInfinite lower && decide (lower < 0) && e.isInfinite upper

/-- Whether a column can take negative values and no positive ones. -/
def isNegative (e : Engine α) (column : Nat) : Bool :=
  (e.bounds? column).any fun (lower, upper) => decide (upper ≤ 0) && decide (lower < 0)

/-! ## Names -/

/-- The names of the rows; a row that was given none is named by its number. -/
def rowNames (e : Engine α) : List String :=
  e.model.rows.mapIdx fun i r => r.name.getD ("R" ++ toString (i + 1))

def columnNames (e : Engine α) : List String :=
  e.model.columns.mapIdx fun j c => c.name.getD ("C" ++ toString (j + 1))

def rowName? (e : Engine α) (row : Nat) : Option String := do
  let i ← e.rowIndex? row
  e.rowNames[i]?

def columnName? (e : Engine α) (column : Nat) : Option String := do
  let j ← e.columnIndex? column
  e.columnNames[j]?

def setRowName? (e : Engine α) (row : Nat) (name : String) : Option (Engine α) := do
  let i ← e.rowIndex? row
  return { e with model := ← e.model.modifyRow? i fun r => { r with name := some name } }

def setColumnName? (e : Engine α) (column : Nat) (name : String) : Option (Engine α) := do
  let j ← e.columnIndex? column
  return { e with model := ← e.model.modifyColumn? j fun c => { c with name := some name } }

/-- The first row with a name. -/
def findRow? (e : Engine α) (name : String) : Option Nat :=
  (e.rowNames.idxOf? name).map (· + 1)

def findColumn? (e : Engine α) (name : String) : Option Nat :=
  (e.columnNames.idxOf? name).map (· + 1)

def title (e : Engine α) : String := e.name.getD "Unnamed"

def setTitle (e : Engine α) (name : String) : Engine α := { e with name := some name }

/-! ## Modes and configuration -/

/-- Start or end the adding of rows; no result if nothing changes by it. -/
def setRowMode? (e : Engine α) (enabled : Bool) : Option (Engine α) :=
  if e.rowMode = enabled then none else some { e with rowMode := enabled }

/-- Change the sense of the objective; the outcome is kept if it stays the same. -/
def setSense (e : Engine α) (sense : Sense) : Engine α :=
  if e.model.sense = sense then e else e.withModel { e.model with sense := sense }

/-- A bound that was infinite is infinite again when the size of infinity changes. -/
def moveInfinity (old new : α) (c : Column α) : Column α :=
  { c with
    lower := if c.lower ≤ -old then -new else c.lower
    upper := if old ≤ c.upper then new else c.upper }

def setInfinity (e : Engine α) (infinity : α) : Engine α :=
  let columns := e.model.columns.map (moveInfinity e.config.infinity infinity)
  { e.withModel { e.model with columns := columns } with
    config := { e.config with infinity := infinity } }

def setConfig (e : Engine α) (config : Config α) : Engine α :=
  { e.setInfinity config.infinity with config := config }

def setAbort (e : Engine α) (answer : Nat → Bool) : Engine α :=
  { e with abort := some ⟨answer, 0⟩ }

def clearAbort (e : Engine α) : Engine α := { e with abort := none }

end Engine
end LinProg
