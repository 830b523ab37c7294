/-
What can be read from an engine, as programs on arrays.

A number of a row or column is compared with how many there are before one
is subtracted from it and the place is read.  What lies behind a place that
is there, a vector of the matrix or a value of the stored solution, is there
as well: the vectors of a model belong to its columns, and a solution that
is stored is one of the model.
-/
import LinProg.Proofs.Access.Translation
import LinProg.Proofs.Engine.Outcome

namespace LinProg

/-! ## Numbers of elements -/

namespace Checked

variable {β : Type}

/-- The place of the element with a number, if it is one of `count` that are numbered from one. -/
def placeM? (count n : ℕ) : Checked (Option ℕ) := do
  if 1 ≤ n ∧ n ≤ count then
    return some (← lower n 1)
  return none

/-- The element with a number, if there is one. -/
def numberedM? (xs : List β) (n : ℕ) : Checked (Option β) := do
  match ← placeM? xs.length n with
  | none => return none
  | some i => return some (← read xs i)

theorem placeM?_eq (count n : ℕ) :
    placeM? count n = .ok (if 1 ≤ n ∧ n ≤ count then some (n - 1) else none) := by
  rw [placeM?]
  split
  · rename_i h
    rw [lower_eq_ok h.1]
    rfl
  · rfl

theorem numberedM?_eq (xs : List β) (n : ℕ) :
    numberedM? xs n = .ok ((if 1 ≤ n ∧ n ≤ xs.length then some (n - 1) else none).bind (xs[·]?)) := by
  rw [numberedM?, placeM?_eq, ok_bind]
  by_cases h : 1 ≤ n ∧ n ≤ xs.length
  · have hlt : n - 1 < xs.length := by omega
    simp only [if_pos h, read_eq_ok hlt, ok_bind, Option.bind_some, List.getElem?_eq_getElem hlt]
    rfl
  · simp only [if_neg h]
    rfl

end Checked

open Checked

variable {α : Type} [Scalar α]

namespace Engine

variable {e : Engine α} {row column : ℕ}

/-! ## Places -/

section Places

omit [Scalar α]

def rowIndexM? (e : Engine α) (row : ℕ) : Checked (Option ℕ) := placeM? e.nrRows row

def columnIndexM? (e : Engine α) (column : ℕ) : Checked (Option ℕ) := placeM? e.nrColumns column

/-- Whether a row is the objective or exists. -/
def hasRowM (e : Engine α) (row : ℕ) : Checked Bool := do
  if row = 0 then
    return true
  return (← e.rowIndexM? row).isSome

def rowM? (e : Engine α) (row : ℕ) : Checked (Option (Row α)) := numberedM? e.model.rows row

def columnM? (e : Engine α) (column : ℕ) : Checked (Option (Column α)) :=
  numberedM? e.model.columns column

theorem rowIndexM?_eq (e : Engine α) (row : ℕ) : e.rowIndexM? row = .ok (e.rowIndex? row) :=
  placeM?_eq _ row

theorem columnIndexM?_eq (e : Engine α) (column : ℕ) :
    e.columnIndexM? column = .ok (e.columnIndex? column) := placeM?_eq _ column

theorem rowM?_eq (e : Engine α) (row : ℕ) : e.rowM? row = .ok (e.row? row) :=
  numberedM?_eq _ row

theorem columnM?_eq (e : Engine α) (column : ℕ) : e.columnM? column = .ok (e.column? column) :=
  numberedM?_eq _ column

theorem hasRowM_eq (e : Engine α) (row : ℕ) : e.hasRowM row = .ok (decide (row ≤ e.nrRows)) := by
  rw [hasRowM, rowIndexM?_eq, ok_bind]
  split
  · rename_i h
    rw [h, decide_eq_true (Nat.zero_le _)]
    rfl
  · rename_i h
    rw [rowIndex?]
    split
    · rename_i hrow
      rw [decide_eq_true hrow.2]
      rfl
    · rename_i hrow
      rw [decide_eq_false fun hle => hrow ⟨Nat.pos_of_ne_zero h, hle⟩]
      rfl

end Places

/-! ## The matrix -/

def rowValuesM? (e : Engine α) (row : ℕ) : Checked (Option (List α)) :=
  match row with
  | 0 => do return some (← e.model.cost.toDenseM e.nrColumns)
  | row => do
      match ← e.rowM? row with
      | none => return none
      | some r => return some (← r.coefficients.toDenseM e.nrColumns)

def columnValuesM? (e : Engine α) (column : ℕ) : Checked (Option (List α)) := do
  match ← e.columnIndexM? column with
  | none => return none
  | some j => return some (← e.model.columnValuesM j)

def elementM? (e : Engine α) (row column : ℕ) : Checked (Option α) := do
  if !(← e.hasRowM row) then
    return none
  match ← e.columnIndexM? column with
  | none => return none
  | some j => return some (← e.model.elementM row j)

omit [Scalar α] in
theorem mem_rows_of_row? {r : Row α} (h : e.row? row = some r) : r ∈ e.model.rows := by
  obtain ⟨i, -, hi⟩ := Option.bind_eq_some_iff.mp h
  exact List.mem_of_getElem? hi

theorem rowValuesM?_eq (he : e.model.Canonical) (row : ℕ) :
    e.rowValuesM? row = .ok (e.rowValues? row) := by
  cases row with
  | zero =>
      have hdense : e.model.cost.toDenseM e.nrColumns = .ok (e.model.cost.toDense e.nrColumns) :=
        Sparse.toDenseM_eq he.listed.cost he.cost.within
      rw [rowValuesM?, hdense]
      rfl
  | succ i =>
      show (e.rowM? (i + 1) >>= _) = .ok ((e.row? (i + 1)).map _)
      rw [rowM?_eq, ok_bind]
      cases hr : e.row? (i + 1) with
      | none => rfl
      | some r =>
          have hstored := he.rows r (mem_rows_of_row? hr)
          have hdense : r.coefficients.toDenseM e.nrColumns
              = .ok (r.coefficients.toDense e.nrColumns) :=
            Sparse.toDenseM_eq hstored.sorted hstored.within
          simp only [hdense, ok_bind]
          rfl

theorem columnValuesM?_eq (he : e.model.Sorted) (column : ℕ) :
    e.columnValuesM? column = .ok (e.columnValues? column) := by
  rw [columnValuesM?, columnIndexM?_eq, ok_bind, columnValues?]
  cases e.columnIndex? column with
  | none => rfl
  | some j =>
      simp only [Model.columnValuesM_eq he, ok_bind]
      rfl

theorem elementM?_eq (he : e.model.Sorted) (row column : ℕ) :
    e.elementM? row column = .ok (e.element? row column) := by
  rw [elementM?, hasRowM_eq, ok_bind, columnIndexM?_eq, ok_bind, element?]
  cases e.columnIndex? column with
  | none =>
      cases decide (row ≤ e.nrRows) with
      | true => rfl
      | false => rfl
  | some j =>
      have hrow : (e.model.element? row j).isSome = decide (row ≤ e.nrRows) :=
        e.model.isSome_element? row j
      show _ = Except.ok (e.model.element? row j)
      rw [← hrow]
      cases hx : e.model.element? row j with
      | none => rfl
      | some x =>
          show (e.model.elementM row j >>= fun x => .ok (some x)) = .ok (some x)
          rw [Model.elementM_eq he hx, ok_bind]

/-! ## Bounds and names -/

def boundsM? (e : Engine α) (column : ℕ) : Checked (Option (α × α)) := do
  return (← e.columnM? column).map fun c => (c.lower, c.upper)

def isUnboundedM (e : Engine α) (column : ℕ) : Checked Bool := do
  return (← e.boundsM? column).any fun (lower, upper) =>
    e.isInfinite lower && decide (lower < 0) && e.isInfinite upper

def isNegativeM (e : Engine α) (column : ℕ) : Checked Bool := do
  return (← e.boundsM? column).any fun (lower, upper) => decide (upper ≤ 0) && decide (lower < 0)

omit [Scalar α] in
def rowNameM? (e : Engine α) (row : ℕ) : Checked (Option String) := do
  return (← e.rowM? row).map fun r => r.name.getD ("R" ++ toString row)

omit [Scalar α] in
def columnNameM? (e : Engine α) (column : ℕ) : Checked (Option String) := do
  return (← e.columnM? column).map fun c => c.name.getD ("C" ++ toString column)

/-- The first number, of `count`, that goes with a name. -/
def findNameM? (nameM? : ℕ → Checked (Option String)) (count : ℕ) (name : String) :
    Checked (Option ℕ) :=
  (List.range' 1 count).findM? fun n => do return decide ((← nameM? n) = some name)

omit [Scalar α] in
def findRowM? (e : Engine α) (name : String) : Checked (Option ℕ) :=
  findNameM? e.rowNameM? e.nrRows name

omit [Scalar α] in
def findColumnM? (e : Engine α) (name : String) : Checked (Option ℕ) :=
  findNameM? e.columnNameM? e.nrColumns name

section Names

omit [Scalar α]

theorem boundsM?_eq (e : Engine α) (column : ℕ) : e.boundsM? column = .ok (e.bounds? column) := by
  rw [boundsM?, columnM?_eq]
  rfl

theorem rowName?_eq_map (e : Engine α) (row : ℕ) :
    e.rowName? row = (e.row? row).map fun r => r.name.getD ("R" ++ toString row) := by
  rw [row?, rowName?]
  cases hi : e.rowIndex? row with
  | none => rfl
  | some i =>
      obtain ⟨rfl, -⟩ := rowIndex?_eq_some.mp hi
      exact List.getElem?_mapIdx

theorem columnName?_eq_map (e : Engine α) (column : ℕ) :
    e.columnName? column = (e.column? column).map fun c => c.name.getD ("C" ++ toString column) := by
  rw [column?, columnName?]
  cases hj : e.columnIndex? column with
  | none => rfl
  | some j =>
      obtain ⟨rfl, -⟩ := columnIndex?_eq_some.mp hj
      exact List.getElem?_mapIdx

theorem rowNameM?_eq (e : Engine α) (row : ℕ) : e.rowNameM? row = .ok (e.rowName? row) := by
  rw [rowNameM?, rowM?_eq, rowName?_eq_map]
  rfl

theorem columnNameM?_eq (e : Engine α) (column : ℕ) :
    e.columnNameM? column = .ok (e.columnName? column) := by
  rw [columnNameM?, columnM?_eq, columnName?_eq_map]
  rfl

/-- Going through the places of a list of names, the first one with a name is found. -/
theorem find?_range_eq_idxOf? (names : List String) (name : String) :
    (List.range names.length).find? (fun i => decide (names[i]? = some name))
      = names.idxOf? name := by
  induction names with
  | nil => rfl
  | cons first names ih =>
      rw [List.length_cons, List.range_succ_eq_map, List.find?_cons, List.find?_map,
        List.idxOf?_cons, ← ih]
      by_cases h : first = name
      · simp [h]
      · simp [h]

theorem rowName?_of_mem {row : ℕ} (h : row ∈ List.range' 1 e.nrRows) :
    e.rowName? row = e.rowNames[row - 1]? := by
  obtain ⟨i, hi, rfl⟩ := List.mem_range'.mp h
  rw [rowName?, rowIndex?_eq_some.mpr ⟨by omega, hi⟩, Nat.one_mul, Nat.add_sub_cancel_left]
  rfl

theorem columnName?_of_mem {column : ℕ} (h : column ∈ List.range' 1 e.nrColumns) :
    e.columnName? column = e.columnNames[column - 1]? := by
  obtain ⟨j, hj, rfl⟩ := List.mem_range'.mp h
  rw [columnName?, columnIndex?_eq_some.mpr ⟨by omega, hj⟩, Nat.one_mul, Nat.add_sub_cancel_left]
  rfl

theorem findNameM?_eq {nameM? : ℕ → Checked (Option String)} {names : List String}
    (h : ∀ n ∈ List.range' 1 names.length, nameM? n = .ok names[n - 1]?) (name : String) :
    findNameM? nameM? names.length name = .ok ((names.idxOf? name).map (· + 1)) := by
  have hfind : ∀ n ∈ List.range' 1 names.length,
      (do return decide ((← nameM? n) = some name))
        = (.ok (decide (names[n - 1]? = some name)) : Checked Bool) := by
    intro n hn
    rw [h n hn]
    rfl
  rw [findNameM?, findM?_eq_ok hfind, List.range'_eq_map_range, List.find?_map, ← find?_range_eq_idxOf?]
  simp only [Function.comp_def, Nat.add_comm 1, Nat.add_sub_cancel]

theorem findRowM?_eq (e : Engine α) (name : String) :
    e.findRowM? name = .ok (e.findRow? name) := by
  have hlen : e.rowNames.length = e.nrRows := List.length_mapIdx
  rw [findRowM?, findRow?, ← hlen]
  refine findNameM?_eq ?_ name
  intro row hrow
  rw [rowNameM?_eq, rowName?_of_mem (hlen ▸ hrow)]

theorem findColumnM?_eq (e : Engine α) (name : String) :
    e.findColumnM? name = .ok (e.findColumn? name) := by
  have hlen : e.columnNames.length = e.nrColumns := List.length_mapIdx
  rw [findColumnM?, findColumn?, ← hlen]
  refine findNameM?_eq ?_ name
  intro column hcolumn
  rw [columnNameM?_eq, columnName?_of_mem (hlen ▸ hcolumn)]

end Names

/-! ## Solutions -/

def isFeasibleM (e : Engine α) (values : List α) (threshold : α) : Checked Bool := do
  if values.length ≠ 1 + e.nrRows + e.nrColumns then
    return false
  let x ← rest (1 + e.nrRows) values
  let rowsHold ← (List.range e.nrRows).allM fun i => do
    let activity ← (← read e.model.rows i).coefficients.dotM x
    return (← e.model.limitsM i).holds threshold activity
  return (e.model.columns.zip x).all (fun (c, v) =>
    decide (c.lower - threshold ≤ v) && decide (v ≤ c.upper + threshold)) && rowsHold

omit [Scalar α] in
/-- The objective of the latest solution, which is its first value. -/
def objectiveM? (e : Engine α) : Checked (Option α) := do
  match e.solution with
  | none => return none
  | some s => return some (← read s.primal 0)

theorem all_range_getElem? {β : Type} (xs : List β) (p : β → Bool) :
    (List.range xs.length).all (fun i => xs[i]?.all p) = xs.all p := by
  induction xs with
  | nil => rfl
  | cons x xs ih =>
      rw [List.length_cons, List.range_succ_eq_map, List.all_cons, List.all_map, List.all_cons, ← ih]
      rfl

theorem isFeasibleM_eq (he : e.model.Closed) (values : List α) (threshold : α) :
    e.isFeasibleM values threshold = .ok (e.isFeasible values threshold) := by
  rw [isFeasibleM, isFeasible]
  split
  · rename_i hlen
    rw [decide_eq_false hlen]
    rfl
  · rename_i hlen
    obtain hlen : values.length = 1 + e.nrRows + e.nrColumns := not_not.mp hlen
    have hx : (values.drop (1 + e.nrRows)).length = e.nrColumns := by
      rw [List.length_drop]
      omega
    have hrows : (List.range e.nrRows).allM (fun i => do
        let activity ← (← read e.model.rows i).coefficients.dotM (values.drop (1 + e.nrRows))
        return (← e.model.limitsM i).holds threshold activity)
        = .ok ((List.range e.nrRows).all fun i => e.model.rows[i]?.all fun r =>
          r.limits.holds threshold (r.coefficients.dot (values.drop (1 + e.nrRows)))) := by
      refine allM_eq_ok ?_
      intro i hi
      have hi : i < e.model.rows.length := List.mem_range.mp hi
      have hwithin : e.model.rows[i].coefficients.Within (values.drop (1 + e.nrRows)).length := by
        rw [hx]
        exact he.rows _ (List.getElem_mem hi)
      rw [Model.limitsM, read_eq_ok hi, ok_bind, Sparse.dotM_eq hwithin,
        List.getElem?_eq_getElem hi]
      rfl
    have hall := all_range_getElem? e.model.rows fun r =>
      r.limits.holds threshold (r.coefficients.dot (values.drop (1 + e.nrRows)))
    rw [rest_eq_ok (by omega), ok_bind, hrows, ok_bind, decide_eq_true hlen, Bool.true_and, ← hall]
    rfl

theorem objectiveM?_eq (he : e.Consistent) : e.objectiveM? = .ok e.objective? := by
  rw [objectiveM?]
  rcases he.solution with ⟨hs, hobjective⟩ | ⟨s, hs, hbelongs, hobjective, -⟩
  · rw [hs, hobjective]
    rfl
  · rw [hs, hobjective]
    simp only [read_of_getElem? hbelongs.objective, hbelongs.objective]
    rfl

/-! ## All reads -/

/-- Whatever is read from an engine, no access is to a place that is not there. -/
structure ReadsInside (e : Engine α) : Prop where
  row : ∀ row, e.rowM? row = .ok (e.row? row)
  column : ∀ column, e.columnM? column = .ok (e.column? column)
  rowValues : ∀ row, e.rowValuesM? row = .ok (e.rowValues? row)
  columnValues : ∀ column, e.columnValuesM? column = .ok (e.columnValues? column)
  element : ∀ row column, e.elementM? row column = .ok (e.element? row column)
  bounds : ∀ column, e.boundsM? column = .ok (e.bounds? column)
  isUnbounded : ∀ column, e.isUnboundedM column = .ok (e.isUnbounded column)
  isNegative : ∀ column, e.isNegativeM column = .ok (e.isNegative column)
  rowName : ∀ row, e.rowNameM? row = .ok (e.rowName? row)
  columnName : ∀ column, e.columnNameM? column = .ok (e.columnName? column)
  findRow : ∀ name, e.findRowM? name = .ok (e.findRow? name)
  findColumn : ∀ name, e.findColumnM? name = .ok (e.findColumn? name)
  isFeasible : ∀ values threshold,
    e.isFeasibleM values threshold = .ok (e.isFeasible values threshold)
  objective : e.objectiveM? = .ok e.objective?

theorem readsInside (hm : e.model.Canonical) (he : e.Consistent) : e.ReadsInside where
  row := e.rowM?_eq
  column := e.columnM?_eq
  rowValues := rowValuesM?_eq hm
  columnValues := columnValuesM?_eq hm.listed
  element := elementM?_eq hm.listed
  bounds := e.boundsM?_eq
  isUnbounded column := by
    rw [isUnboundedM, boundsM?_eq]
    rfl
  isNegative column := by
    rw [isNegativeM, boundsM?_eq]
    rfl
  rowName := e.rowNameM?_eq
  columnName := e.columnNameM?_eq
  findRow := e.findRowM?_eq
  findColumn := e.findColumnM?_eq
  isFeasible := isFeasibleM_eq hm.closed
  objective := objectiveM?_eq he

end Engine
end LinProg
