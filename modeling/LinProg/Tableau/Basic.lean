/-
Dense simplex tableaux.

A line holds the entries of a constraint row expressed in the current
basis, and last its right-hand side.  The relative costs are laid out in
the same way and end in minus the objective value.  Rows without a first
basis column get an artificial one; artificial columns come last.
-/
import LinProg.StandardForm.Basic

namespace LinProg

structure Line (α : Type) where
  /-- The entries by column, followed by the right-hand side. -/
  entries : List α
  basic : Nat
  /-- The column that was a unit vector on this row at the start. -/
  unit : Nat
deriving DecidableEq

/-- A standard form, with artificial columns, expressed in one of its bases. -/
structure Tableau (α : Type) where
  lines : List (Line α)
  /-- The relative costs by column, followed by minus the objective value. -/
  costs : List α
  inBasis : List Bool
  /-- Columns from here on are artificial. -/
  firstArtificial : Nat
  /-- Columns from here on may not enter the basis. -/
  enterable : Nat
  /-- The size up to which a value counts as zero. -/
  epsilon : α
  iterations : Nat
deriving DecidableEq

namespace Line

variable {α : Type} [Scalar α]

/-- The entry in a column; the right-hand side is the entry past the last column. -/
def entry (column : Nat) (l : Line α) : α := l.entries.getD column 0

end Line

namespace Tableau

variable {α : Type} [Scalar α]

def nrRows (t : Tableau α) : Nat := t.lines.length

/-- The number of columns, artificial ones included. -/
def nrColumns (t : Tableau α) : Nat := t.inBasis.length

/-- The lines of equations, where those without a first basis column get the consecutive
artificial columns from `artificial` on. -/
def startLines (columns : Nat) (artificial : Nat) : List (Equation α) → List (Line α)
  | [] => []
  | e :: es =>
      let entries := e.coefficients ++ List.replicate (columns - e.coefficients.length) 0
      match e.basic with
      | some j => ⟨entries ++ [e.value], j, j⟩ :: startLines columns artificial es
      | none =>
          ⟨entries.set artificial 1 ++ [e.value], artificial, artificial⟩
            :: startLines columns (artificial + 1) es

/-- The first tableau of a standard form; all relative costs are zero. -/
def start (f : StandardForm α) (epsilon : α) : Tableau α :=
  let columns := f.nrColumns + f.equations.countP fun e => e.basic.isNone
  let lines := startLines columns f.nrColumns f.equations
  { lines
    costs := List.replicate (columns + 1) 0
    inBasis := lines.foldl (fun b l => b.set l.basic true) (List.replicate columns false)
    firstArtificial := f.nrColumns
    enterable := columns
    epsilon
    iterations := 0 }

def relativeCost (column : Nat) (t : Tableau α) : α := t.costs.getD column 0

def isInBasis (column : Nat) (t : Tableau α) : Bool := t.inBasis.getD column false

def rightHandSide (t : Tableau α) (l : Line α) : α := l.entry t.nrColumns

def objective (t : Tableau α) : α := -(t.relativeCost t.nrColumns)

/-- The value of every column that is not artificial in the current basic solution. -/
def basicSolution (t : Tableau α) : List α :=
  t.lines.foldl
    (fun values l => if l.basic < t.firstArtificial then values.set l.basic (t.rightHandSide l)
      else values)
    (List.replicate t.firstArtificial 0)

/-- The dual value of each row, read from the relative cost of its first unit column, which costs
nothing itself. -/
def duals (t : Tableau α) : List α := t.lines.map fun l => -(t.relativeCost l.unit)

def isSound (t : Tableau α) : Bool :=
  t.lines.all (fun l => l.entries.all Scalar.isFinite) && t.costs.all Scalar.isFinite

/-- Whether the basic solution is feasible and each basic column is one on its row, up to the
tolerance. -/
def isBasicFeasible (t : Tableau α) : Bool :=
  t.lines.all (fun l => decide (-t.epsilon ≤ t.rightHandSide l))
    && t.lines.all (fun l => decide (Scalar.abs (l.entry l.basic - 1) ≤ t.epsilon))

/-- Replace the cost by a given one, expressed in the current basis.  Columns past the end of the
list cost nothing. -/
def setCost (cost : List α) (t : Tableau α) : Tableau α :=
  let costs := (List.range t.nrColumns).map (fun j => cost.getD j 0) ++ [0]
  { t with
    costs := t.lines.foldl
      (fun costs l =>
        let c := cost.getD l.basic 0
        if Scalar.isZero c then costs
        else List.zipWith (fun d x => d - c * x) costs l.entries)
      costs }

/-- Let the artificial columns cost one each and the others nothing. -/
def setArtificialCost (t : Tableau α) : Tableau α :=
  t.setCost ((List.range t.nrColumns).map fun j => if t.firstArtificial ≤ j then 1 else 0)

/-- Keep artificial columns from entering the basis. -/
def closeArtificial (t : Tableau α) : Tableau α := { t with enterable := t.firstArtificial }

end Tableau

end LinProg
