/-
Pivots: which column enters the basis, which row it enters on, and the
row operations that bring it there.

The first column with a profitable cost enters.  Of the rows that limit
it, the one with the smallest ratio is taken, and among ratios that agree
up to the tolerance the one with the lowest basic column.
-/
import LinProg.Tableau.Basic

namespace LinProg
namespace Tableau

variable {α : Type} [Scalar α]

/-! ## Row operations -/

/-- Subtract the multiple of the pivot row that makes the pivot column zero. -/
def eliminate (pivot : List α) (column : Nat) (entries : List α) : List α :=
  let factor := entries.getD column 0
  if Scalar.isZero factor then entries
  else (List.zipWith (fun x p => x - factor * p) entries pivot).set column 0

/-- The pivot row divided by its entry in the pivot column. -/
def normalize (column : Nat) (entries : List α) : List α :=
  let p := entries.getD column 0
  (entries.map (· / p)).set column 1

/-- Bring a column into the basis on a row. -/
def pivot (column row : Nat) (t : Tableau α) : Tableau α :=
  let leaving := t.lines.getD row ⟨[], 0, 0⟩
  let pivotRow := normalize column leaving.entries
  { t with
    lines := t.lines.mapIdx fun i l =>
      if i = row then { l with entries := pivotRow, basic := column }
      else { l with entries := eliminate pivotRow column l.entries }
    costs := eliminate pivotRow column t.costs
    inBasis := (t.inBasis.set leaving.basic false).set column true
    iterations := t.iterations + 1 }

/-- Bring a column into the basis on a row, if both exist. -/
def pivot? (column row : Nat) (t : Tableau α) : Option (Tableau α) :=
  if column < t.nrColumns ∧ row < t.nrRows then some (t.pivot column row) else none

/-! ## The choice of column and row -/

/-- The first column that may enter the basis and whose relative cost is negative. -/
def enteringColumn? (t : Tableau α) : Option Nat :=
  (List.range t.enterable).find? fun j =>
    !t.isInBasis j && decide (t.relativeCost j < -t.epsilon)

structure Candidate (α : Type) where
  row : Nat
  basic : Nat
  /-- The value at which the basic column of the row becomes zero. -/
  ratio : α
deriving DecidableEq

/-- The rows whose entry in a column is positive. -/
def candidates (column : Nat) (t : Tableau α) : List (Candidate α) :=
  (t.lines.mapIdx fun i l => (i, l)).filterMap fun (i, l) =>
    if t.epsilon < l.entry column then
      some ⟨i, l.basic, t.rightHandSide l / l.entry column⟩
    else none

/-- Order by ratio, and by basic column where the ratios agree up to the tolerance. -/
def Candidate.order (epsilon : α) (a b : Candidate α) : Ordering :=
  if Scalar.abs (a.ratio - b.ratio) ≤ epsilon then compare a.basic b.basic
  else Scalar.order a.ratio b.ratio

/-- The candidate that stays when each one in turn is compared with the best before it and takes
its place only if that is greater. -/
def best? (epsilon : α) : List (Candidate α) → Option (Candidate α)
  | [] => none
  | c :: cs => some (cs.foldl (fun a b => if a.order epsilon b = .gt then b else a) c)

/-- The row on which a column enters the basis; none if no row limits it. -/
def leavingRow? (column : Nat) (t : Tableau α) : Option Nat :=
  (best? t.epsilon (t.candidates column)).map Candidate.row

/-- The row on which a column enters the basis, if every line has an entry in that column. -/
def checkedLeavingRow? (column : Nat) (t : Tableau α) : Option (Option Nat) :=
  if t.lines.all fun l => decide (column < l.entries.length) then some (t.leavingRow? column)
  else none

inductive Move where
  | pivot (column row : Nat)
  | unlimited (column : Nat)
  | finished
deriving DecidableEq

def move (t : Tableau α) : Move :=
  match t.enteringColumn? with
  | none => .finished
  | some column =>
      match t.leavingRow? column with
      | some row => .pivot column row
      | none => .unlimited column

/-! ## Artificial columns -/

/-- The first column, of those that are neither artificial nor basic, with a nonzero entry on a
line. -/
def replacement? (l : Line α) (t : Tableau α) : Option Nat :=
  (List.range t.firstArtificial).find? fun j =>
    !t.isInBasis j && decide (t.epsilon < Scalar.abs (l.entry j))

/-- Replace the artificial columns that are basic on the given rows.  The second component lists
the rows that allow no replacement: these are combinations of the others. -/
def expelOn : List Nat → Tableau α → Tableau α × List Nat
  | [], t => (t, [])
  | row :: rows, t =>
      match t.lines[row]? with
      | none => expelOn rows t
      | some l =>
          if l.basic < t.firstArtificial then expelOn rows t
          else
            match t.replacement? l with
            | some column => expelOn rows (t.pivot column row)
            | none =>
                let (t', redundant) := expelOn rows t
                (t', row :: redundant)

/-- Replace the artificial columns in the basis, as far as possible, by pivots that do not change
the solution when their values are zero. -/
def expelArtificial (t : Tableau α) : Tableau α × List Nat := expelOn (List.range t.nrRows) t

end Tableau
end LinProg
