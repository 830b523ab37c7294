/-
The matrix of a model as arrays.

Reading an element, a column or the limits of a row, writing an element and
writing a column into the rows: with every access checked they return what
the definitions of the model compute, as long as the vectors of the model are
sorted and the rows that are named exist.
-/
import LinProg.Proofs.Access.Sparse

namespace LinProg

open Checked

variable {α : Type} [Scalar α]

namespace Row

def putM (column : ℕ) (x : α) (r : Row α) : Checked (Row α) := do
  return { r with coefficients := ← r.coefficients.setM column x }

theorem putM_eq {r : Row α} (hr : r.coefficients.Sorted) (column : ℕ) (x : α) :
    r.putM column x = .ok (r.put column x) := by
  rw [putM, Sparse.setM_eq hr]
  rfl

theorem sorted_put {r : Row α} (hr : r.coefficients.Sorted) (column : ℕ) (x : α) :
    (r.put column x).coefficients.Sorted :=
  Sparse.sorted_set hr column x

end Row

namespace Model

variable {m m' : Model α} {row column i j : ℕ} {x : α}

/-! ## Rows and columns -/

omit [Scalar α] in
def alterRowM (i : ℕ) (f : Row α → Row α) (m : Model α) : Checked (Model α) := do
  return { m with rows := ← alter m.rows i fun r => .ok (f r) }

omit [Scalar α] in
def alterColumnM (j : ℕ) (f : Column α → Column α) (m : Model α) : Checked (Model α) := do
  return { m with columns := ← alter m.columns j fun c => .ok (f c) }

omit [Scalar α] in
theorem alterRowM_eq {f : Row α → Row α} (hi : i < m.nrRows) :
    m.alterRowM i f = .ok { m with rows := m.rows.modify i f } := by
  rw [alterRowM, alter_eq_ok (g := f) hi rfl]
  rfl

omit [Scalar α] in
theorem alterColumnM_eq {f : Column α → Column α} (hj : j < m.nrColumns) :
    m.alterColumnM j f = .ok { m with columns := m.columns.modify j f } := by
  rw [alterColumnM, alter_eq_ok (g := f) hj rfl]
  rfl

def limitsM (i : ℕ) (m : Model α) : Checked (Limits α) := do
  return (← read m.rows i).limits

/-! ## Elements -/

def elementM (row column : ℕ) (m : Model α) : Checked α :=
  match row with
  | 0 => m.cost.getM column
  | row => do (← read m.rows (← lower row 1)).coefficients.getM column

def setElementM (row column : ℕ) (x : α) (m : Model α) : Checked (Model α) :=
  match row with
  | 0 => do return { m with cost := ← m.cost.setM column x }
  | row => do return { m with rows := ← alter m.rows (← lower row 1) (Row.putM column x) }

def columnValuesM (column : ℕ) (m : Model α) : Checked (List α) := do
  let cost ← m.cost.getM column
  let values ← m.rows.mapM fun r => r.coefficients.getM column
  return cost :: values

theorem isSome_element? (m : Model α) (row column : ℕ) :
    (m.element? row column).isSome = decide (row ≤ m.nrRows) := by
  cases row with
  | zero => exact (decide_eq_true (Nat.zero_le _)).symm
  | succ i =>
      show (Option.map _ m.rows[i]?).isSome = decide (i < m.rows.length)
      rw [Option.isSome_map]
      by_cases h : i < m.rows.length
      · rw [List.getElem?_eq_getElem h, decide_eq_true h]
        rfl
      · rw [List.getElem?_eq_none (not_lt.mp h), decide_eq_false h]
        rfl

theorem isSome_setElement? (m : Model α) (row column : ℕ) (x : α) :
    (m.setElement? row column x).isSome = decide (row ≤ m.nrRows) := by
  cases row with
  | zero => exact (decide_eq_true (Nat.zero_le _)).symm
  | succ i =>
      show (m.modifyRow? i _).isSome = decide (i < m.nrRows)
      rw [modifyRow?]
      split
      · rename_i h
        exact (decide_eq_true h).symm
      · rename_i h
        exact (decide_eq_false h).symm

theorem elementM_eq (hm : m.Sorted) (h : m.element? row column = some x) :
    m.elementM row column = .ok x := by
  cases row with
  | zero =>
      obtain rfl := Option.some.inj h
      exact Sparse.getM_eq hm.cost column
  | succ i =>
      obtain ⟨r, hr, rfl⟩ := Option.map_eq_some_iff.mp h
      show (lower (i + 1) 1 >>= fun i => read m.rows i >>= fun r => r.coefficients.getM column) = _
      rw [lower_succ, ok_bind, read_of_getElem? hr, ok_bind,
        Sparse.getM_eq (hm.rows r (List.mem_of_getElem? hr))]

theorem setElementM_eq (hm : m.Sorted) (h : m.setElement? row column x = some m') :
    m.setElementM row column x = .ok m' := by
  cases row with
  | zero =>
      obtain rfl := Option.some.inj h
      rw [setElementM, Sparse.setM_eq hm.cost]
      rfl
  | succ i =>
      obtain ⟨hi, rfl⟩ := of_modifyRow? h
      have hput : Row.putM column x m.rows[i] = .ok (Row.put column x m.rows[i]) :=
        Row.putM_eq (hm.rows _ (List.getElem_mem hi)) column x
      rw [setElementM, lower_succ, ok_bind, alter_eq_ok (g := Row.put column x) hi hput]
      · rfl
      · exact Nat.succ_ne_zero i

theorem columnValuesM_eq (hm : m.Sorted) (column : ℕ) :
    m.columnValuesM column = .ok (m.columnValues column) := by
  rw [columnValuesM, Sparse.getM_eq hm.cost, ok_bind,
    mapM_eq_ok fun r hr => Sparse.getM_eq (hm.rows r hr) column]
  rfl

/-! ## Columns written into the rows -/

def pushColumnM (cost : α) (values : Sparse α) (c : Column α) (m : Model α) :
    Checked (Model α) := do
  let costs ← m.cost.setM m.nrColumns cost
  let rows ← values.foldlM (fun rows (i, x) => alter rows i (Row.putM m.nrColumns x)) m.rows
  return { m with columns := m.columns ++ [c], cost := costs, rows }

def spreadM (column : ℕ) (i : ℕ) (values : Sparse α) : List (Row α) → Checked (List (Row α))
  | [] => .ok []
  | r :: rows =>
      match values with
      | (j, x) :: rest =>
          if j = i then do
            return (← r.putM column x) :: (← spreadM column (i + 1) rest rows)
          else do
            return (← r.putM column 0) :: (← spreadM column (i + 1) values rows)
      | [] => do
          return (← r.putM column 0) :: (← spreadM column (i + 1) [] rows)

def setColumnM (column : ℕ) (cost : α) (values : Sparse α) (m : Model α) :
    Checked (Model α) := do
  let costs ← m.cost.setM column cost
  let rows ← spreadM column 0 values m.rows
  return { m with cost := costs, rows }

theorem scatterM_eq {n : ℕ} {values : Sparse α} {rows : List (Row α)}
    (hrows : ∀ r ∈ rows, r.coefficients.Sorted) (h : values.Within rows.length) :
    values.foldlM (fun rows (i, x) => alter rows i (Row.putM n x)) rows
      = .ok (scatter n values rows) := by
  refine (foldlM_eq_ok (fun d => d.length = rows.length ∧ ∀ r ∈ d, r.coefficients.Sorted)
    ?_ ⟨rfl, hrows⟩).1
  rintro d ⟨hlen, hd⟩ ⟨i, x⟩ he
  have hi : i < d.length := (h (i, x) he).trans_eq hlen.symm
  refine ⟨alter_eq_ok hi (Row.putM_eq (hd _ (List.getElem_mem hi)) n x),
    (List.length_modify ..).trans hlen, ?_⟩
  intro r hr
  obtain ⟨k, hk, rfl⟩ := List.mem_iff_getElem.mp hr
  simp only [List.getElem_modify]
  split
  · exact Row.sorted_put (hd _ (List.getElem_mem _)) n x
  · exact hd _ (List.getElem_mem _)

theorem pushColumnM_eq (hm : m.Sorted) {cost : α} {values : Sparse α} {c : Column α}
    (h : m.pushColumn? cost values c = some m') : m.pushColumnM cost values c = .ok m' := by
  obtain ⟨hwithin, rfl⟩ := of_pushColumn? h
  rw [pushColumnM, Sparse.setM_eq hm.cost, ok_bind, scatterM_eq hm.rows hwithin]
  rfl

theorem spreadM_eq (column i : ℕ) (values : Sparse α) {rows : List (Row α)}
    (hrows : ∀ r ∈ rows, r.coefficients.Sorted) :
    spreadM column i values rows = .ok (spread column i values rows) := by
  induction rows generalizing i values with
  | nil => rfl
  | cons r rows ih =>
      obtain ⟨hr, hrows⟩ := List.forall_mem_cons.mp hrows
      cases values with
      | nil =>
          rw [spreadM, Row.putM_eq hr, ok_bind, ih (i + 1) [] hrows]
          rfl
      | cons e values =>
          rw [spreadM, spread, Row.putM_eq hr, Row.putM_eq hr, ih (i + 1) values hrows,
            ih (i + 1) (e :: values) hrows]
          split
          · rfl
          · rfl

theorem setColumnM_eq (hm : m.Sorted) (column : ℕ) (cost : α) (values : Sparse α) :
    m.setColumnM column cost values = .ok (m.setColumn column cost values) := by
  rw [setColumnM, Sparse.setM_eq hm.cost, ok_bind, spreadM_eq column 0 values hm.rows]
  rfl

end Model
end LinProg
