/-
Models as dense matrices.

A sheet is what a model says, without regard to how it stores it: a scalar for
every row and column, and the attributes of both.  Rows and columns are
numbered from one, row 0 is the objective, and a position that is not there
holds zero.  Each edit of a model does to its sheet what its name says, cell by
cell; to see this takes one lemma for each way in which coefficients are
written.
-/
import LinProg.Proofs.Model.Names
import LinProg.Proofs.Reading

namespace LinProg

variable {α : Type}

/-- What a row is besides its coefficients. -/
structure Heading (α : Type) where
  relation : Relation
  rightHandSide : α
  range : Option α
  name : Option String
deriving DecidableEq

def Row.heading (r : Row α) : Heading α := ⟨r.relation, r.rightHandSide, r.range, r.name⟩

/-- A dense matrix with the attributes of its rows and columns. -/
@[ext]
structure Sheet (α : Type) where
  cell : ℕ → ℕ → α
  headings : List (Heading α)
  columns : List (Column α)
  sense : Sense

namespace Sheet

def nrRows (s : Sheet α) : ℕ := s.headings.length

def nrColumns (s : Sheet α) : ℕ := s.columns.length

def appendRow (h : Heading α) (values : ℕ → α) (s : Sheet α) : Sheet α :=
  { s with
    cell := fun r c => if r = s.nrRows + 1 then values c else s.cell r c
    headings := s.headings ++ [h] }

def setRow (row : ℕ) (values : ℕ → α) (s : Sheet α) : Sheet α :=
  { s with cell := fun r c => if r = row then values c else s.cell r c }

def appendColumn (h : Column α) (values : ℕ → α) (s : Sheet α) : Sheet α :=
  { s with
    cell := fun r c => if c = s.nrColumns + 1 then values r else s.cell r c
    columns := s.columns ++ [h] }

def setColumn (column : ℕ) (values : ℕ → α) (s : Sheet α) : Sheet α :=
  { s with cell := fun r c => if c = column then values r else s.cell r c }

def setCell (row column : ℕ) (x : α) (s : Sheet α) : Sheet α :=
  { s with cell := fun r c => if r = row ∧ c = column then x else s.cell r c }

def deleteRow (row : ℕ) (s : Sheet α) : Sheet α :=
  { s with
    cell := fun r c => s.cell (if r < row then r else r + 1) c
    headings := s.headings.eraseIdx (row - 1) }

def deleteColumn (column : ℕ) (s : Sheet α) : Sheet α :=
  { s with
    cell := fun r c => s.cell r (if c < column then c else c + 1)
    columns := s.columns.eraseIdx (column - 1) }

end Sheet

variable [Scalar α]

/-! ## Writing a column into rows -/

namespace Model

variable {values : Sparse α} {rows : List (Row α)} {k i : ℕ}

theorem getElem?_scatter (hv : values.Sorted) (k : ℕ) (rows : List (Row α)) (i : ℕ) :
    (scatter k values rows)[i]?
      = rows[i]?.map fun r => (values.lookup i).elim r fun x => r.put k x :=
  Sparse.getElem?_foldl_modify (Row.put k) hv rows i

theorem getElem?_spread (hv : values.Sorted) {start : ℕ} (hstart : ∀ e ∈ values, start ≤ e.1)
    (k : ℕ) (rows : List (Row α)) (i : ℕ) :
    (spread k start values rows)[i]?
      = rows[i]?.map fun r => r.put k (values.get (start + i)) := by
  induction rows generalizing start values i with
  | nil => rfl
  | cons r rows ih =>
      -- what is still listed after the first row is listed for the rows after it
      have hcons : ∀ (x : α) (rest : Sparse α), rest.Sorted → (∀ e ∈ rest, start + 1 ≤ e.1) →
          values.get start = x → (∀ j, start < j → rest.get j = values.get j) →
          (r.put k x :: spread k (start + 1) rest rows)[i]?
            = (r :: rows)[i]?.map fun r => r.put k (values.get (start + i)) := by
        intro x rest hrest hnext hx hget
        cases i with
        | zero => exact congrArg (fun x => some (r.put k x)) hx.symm
        | succ i =>
            rw [List.getElem?_cons_succ, List.getElem?_cons_succ, ih hrest hnext,
              hget _ (by omega), Nat.add_right_comm, Nat.add_assoc start]
      cases values with
      | nil => exact hcons 0 [] List.Pairwise.nil nofun rfl fun _ _ => rfl
      | cons e values =>
          obtain ⟨he, hvalues⟩ := List.pairwise_cons.mp hv
          have hle := hstart e List.mem_cons_self
          rw [spread]
          split
          · rename_i heq
            refine hcons e.2 values hvalues (fun d hd => heq ▸ he d hd) (if_pos heq.symm) ?_
            intro j hj
            exact (if_neg (heq ▸ hj).ne').symm
          · rename_i hne
            have hlt : start < e.1 := lt_of_le_of_ne hle (Ne.symm hne)
            have hafter : ∀ d ∈ e :: values, start < d.1 := by
              intro d hd
              rcases List.mem_cons.mp hd with rfl | hd
              · exact hlt
              · exact hlt.trans (he d hd)
            refine hcons 0 (e :: values) hv hafter ?_ fun _ _ => rfl
            rw [Sparse.get_eq_lookup, Sparse.lookup_eq_none fun d hd => (hafter d hd).ne']
            rfl

end Model

/-! ## Cells -/

theorem Row.get_put {r : Row α} (hr : r.coefficients.Sorted) (k : ℕ) (x : α) (j : ℕ) :
    (r.put k x).coefficients.get j
      = if j = k then Scalar.written x else r.coefficients.get j :=
  Sparse.get_set hr k x j

namespace Model

variable {m m' : Model α} {values : Sparse α} {i j k : ℕ}

/-- The coefficient of a column, numbered from zero, in a row, numbered from one; row 0 is the
cost. -/
def cell (m : Model α) (row j : ℕ) : α := (m.element? row j).getD 0

theorem cell_zero (m : Model α) (j : ℕ) : m.cell 0 j = m.cost.get j := rfl

theorem cell_succ (m : Model α) (i j : ℕ) :
    m.cell (i + 1) j = (m.rows[i]?.map fun r => r.coefficients.get j).getD 0 := rfl

theorem Canonical.cell_eq_zero (hm : m.Canonical) (hj : m.nrColumns ≤ j) (row : ℕ) :
    m.cell row j = 0 := by
  cases row with
  | zero => exact Sparse.get_eq_zero_of_within hm.cost.within hj
  | succ i =>
      rw [cell_succ]
      cases hr : m.rows[i]? with
      | none => rfl
      | some r =>
          exact Sparse.get_eq_zero_of_within (hm.rows r (List.mem_of_getElem? hr)).within hj

theorem Canonical.cell_nonzero (hm : m.Canonical) (row j : ℕ) :
    m.cell row j = 0 ∨ Scalar.isZero (m.cell row j) = false := by
  cases row with
  | zero => exact hm.cost.get_nonzero j
  | succ i =>
      rw [cell_succ]
      cases hr : m.rows[i]? with
      | none => exact Or.inl rfl
      | some r => exact (hm.rows r (List.mem_of_getElem? hr)).get_nonzero j

theorem Canonical.sorted_row (hm : m.Canonical) {r : Row α} (h : m.rows[i]? = some r) :
    r.coefficients.Sorted := (hm.rows r (List.mem_of_getElem? h)).sorted

theorem SameMatrix.cell_eq (h : SameMatrix m m') (row j : ℕ) : m'.cell row j = m.cell row j := by
  cases row with
  | zero => exact congrArg (Sparse.get j) h.cost
  | succ i =>
      have hrow := congrArg (fun rows : List (Sparse α) => (rows[i]?.map (Sparse.get j)).getD 0)
        h.rows
      simp only [List.getElem?_map, Option.map_map] at hrow
      exact hrow

theorem Canonical.nrNonzeros_eq_sum (hm : m.Canonical) (hzero : Scalar.isZero (0 : α) = true) :
    m.nrNonzeros = ∑ i ∈ Finset.range m.nrRows,
      ((Finset.range m.nrColumns).filter fun j => Scalar.isZero (m.cell (i + 1) j) = false).card := by
  have hlengths : m.rows.map (fun r => r.coefficients.length)
      = (List.range m.nrRows).map fun i =>
          ((Finset.range m.nrColumns).filter
            fun j => Scalar.isZero (m.cell (i + 1) j) = false).card := by
    refine List.ext_getElem (by simp [nrRows]) ?_
    intro i hi _
    rw [List.length_map] at hi
    have hcell : ∀ j, m.cell (i + 1) j = m.rows[i].coefficients.get j := by
      intro j
      rw [cell_succ, List.getElem?_eq_getElem hi]
      rfl
    simp only [List.getElem_map, List.getElem_range, hcell]
    exact (hm.rows _ (List.getElem_mem hi)).length_eq_card hzero
  have hsum : m.nrNonzeros = (m.rows.map fun r => r.coefficients.length).sum := by
    rw [nrNonzeros, List.sum_eq_foldr, List.foldr_map]
  rw [hsum, hlengths]
  rfl

def columnEntry (cost : α) (values : Sparse α) : ℕ → α
  | 0 => cost
  | i + 1 => values.get i

theorem cell_pushRow (m : Model α) (r : Row α) (row j : ℕ) :
    (m.pushRow r).cell row j
      = if row = m.nrRows + 1 then r.coefficients.get j else m.cell row j := by
  cases row with
  | zero => rfl
  | succ i =>
      rw [cell_succ, cell_succ, pushRow]
      rcases lt_trichotomy i m.nrRows with h | rfl | h
      · rw [List.getElem?_append_left h, if_neg (by omega)]
      · rw [if_pos rfl, nrRows, List.getElem?_concat_length]
        rfl
      · rw [if_neg (by omega), List.getElem?_eq_none h.le, List.getElem?_eq_none]
        simpa [nrRows] using h

theorem cell_setCost (m : Model α) (v : Sparse α) (row j : ℕ) :
    cell { m with cost := v } row j = if row = 0 then v.get j else m.cell row j := by
  cases row with
  | zero => rfl
  | succ i => rfl

theorem cell_setCoefficients (hi : i < m.nrRows) (v : Sparse α) (row j : ℕ) :
    cell { m with rows := m.rows.modify i fun r => { r with coefficients := v } } row j
      = if row = i + 1 then v.get j else m.cell row j := by
  cases row with
  | zero => rfl
  | succ k =>
      rw [cell_succ, cell_succ, List.getElem?_modify]
      by_cases h : k = i
      · subst h
        rw [List.getElem?_eq_getElem hi]
        simp
      · rw [if_neg (by omega)]
        simp [Ne.symm h]

theorem cell_setElement? (hm : m.Canonical) {row k : ℕ} {x : α}
    (h : m.setElement? row k x = some m') (r j : ℕ) :
    m'.cell r j = if r = row ∧ j = k then Scalar.written x else m.cell r j := by
  cases row with
  | zero =>
      obtain rfl := Option.some.inj h
      cases r with
      | zero =>
          rw [cell_zero, cell_zero, Sparse.get_set hm.cost.sorted]
          simp only [true_and]
      | succ i => rfl
  | succ i =>
      obtain ⟨hi, rfl⟩ := of_modifyRow? h
      cases r with
      | zero => rfl
      | succ n =>
          rw [cell_succ, cell_succ, List.getElem?_modify]
          by_cases hn : i = n
          · subst hn
            rw [List.getElem?_eq_getElem hi]
            have hput := Row.get_put (hm.sorted_row (List.getElem?_eq_getElem hi)) k x j
            simp [hput]
          · rw [if_neg fun h => hn (Nat.succ.inj h.1).symm]
            simp [hn]

/-- Rows into which a column is written, each its own value. -/
theorem cell_writeColumn (hm : m.Canonical) (hvalues : values.Within m.nrRows) {cost : α}
    {g : ℕ → Row α → Row α} (hcost : m'.cost = m.cost.set k cost)
    (hrows : ∀ i, m'.rows[i]? = m.rows[i]?.map (g i))
    (hg : ∀ i r, m.rows[i]? = some r → ∀ j, (g i r).coefficients.get j
      = if j = k then Scalar.written (values.get i) else r.coefficients.get j) (row j : ℕ) :
    m'.cell row j
      = if j = k then Scalar.written (columnEntry cost values row) else m.cell row j := by
  cases row with
  | zero =>
      rw [cell_zero, hcost, Sparse.get_set hm.cost.sorted]
      rfl
  | succ i =>
      rw [cell_succ, cell_succ, hrows, columnEntry]
      cases hr : m.rows[i]? with
      | none =>
          rw [Sparse.get_eq_zero_of_within hvalues (List.getElem?_eq_none_iff.mp hr),
            Scalar.written_zero]
          exact (ite_self _).symm
      | some r => exact hg i r hr j

theorem cell_scatter (hm : m.Canonical) (hvalues : values.Canonical m.nrRows) (cost : α)
    (c : Column α) (row j : ℕ) :
    cell { m with
        columns := m.columns ++ [c]
        cost := m.cost.set m.nrColumns cost
        rows := scatter m.nrColumns values m.rows } row j
      = if j = m.nrColumns then Scalar.written (columnEntry cost values row)
        else m.cell row j := by
  refine cell_writeColumn hm hvalues.within rfl (getElem?_scatter hvalues.sorted _ _) ?_ row j
  intro i r hr j
  rw [Sparse.get_eq_lookup i]
  cases values.lookup i with
  | some x => exact Row.get_put (hm.sorted_row hr) _ x j
  | none =>
      -- nothing is written, and no row has a coefficient in the column that is new
      rw [Option.getD_none, Scalar.written_zero]
      split
      · rename_i h
        exact Sparse.get_eq_zero_of_within (hm.rows r (List.mem_of_getElem? hr)).within h.ge
      · rfl

theorem cell_setColumn (hm : m.Canonical) (hvalues : values.Canonical m.nrRows) (k : ℕ)
    (cost : α) (row j : ℕ) :
    (m.setColumn k cost values).cell row j
      = if j = k then Scalar.written (columnEntry cost values row) else m.cell row j := by
  refine cell_writeColumn hm hvalues.within rfl
    (getElem?_spread hvalues.sorted (fun _ _ => Nat.zero_le _) _ _) ?_ row j
  intro i r hr j
  rw [Nat.zero_add]
  exact Row.get_put (hm.sorted_row hr) k _ j

theorem cell_deleteColumn (m : Model α) (k row j : ℕ) :
    (m.deleteColumn k).cell row j = m.cell row (if j < k then j else j + 1) := by
  cases row with
  | zero => exact Sparse.get_delete k m.cost j
  | succ i =>
      rw [cell_succ, cell_succ, deleteColumn, List.getElem?_map]
      cases m.rows[i]? with
      | none => rfl
      | some r => exact Sparse.get_delete k r.coefficients j

theorem cell_deleteRow (m : Model α) (i row j : ℕ) :
    (m.deleteRow i).cell row j = m.cell (if row < i + 1 then row else row + 1) j := by
  cases row with
  | zero => rfl
  | succ k =>
      rw [cell_succ, deleteRow, List.getElem?_eraseIdx]
      by_cases h : k < i
      · rw [if_pos h, if_pos (Nat.succ_lt_succ h)]
        rfl
      · rw [if_neg h, if_neg (by omega)]
        rfl

/-! ## Sheets -/

def numbered (f : ℕ → α) : ℕ → α
  | 0 => 0
  | j + 1 => f j

/-- What a model says. -/
def sheet (m : Model α) : Sheet α where
  cell row := numbered (m.cell row)
  headings := m.rows.map Row.heading
  columns := m.columns
  sense := m.sense

theorem nrRows_sheet (m : Model α) : m.sheet.nrRows = m.nrRows := List.length_map _

theorem sheet_pushRow (m : Model α) (r : Row α) :
    (m.pushRow r).sheet = m.sheet.appendRow r.heading (numbered r.coefficients.get) := by
  refine Sheet.ext ?_ List.map_append rfl rfl
  funext row column
  cases column with
  | zero => exact (ite_self _).symm
  | succ j =>
      rw [Sheet.appendRow, nrRows_sheet]
      exact cell_pushRow m r row j

theorem sheet_setCost (m : Model α) (v : Sparse α) :
    sheet { m with cost := v } = m.sheet.setRow 0 (numbered v.get) := by
  refine Sheet.ext ?_ rfl rfl rfl
  funext row column
  cases column with
  | zero => exact (ite_self _).symm
  | succ j => exact cell_setCost m v row j

omit [Scalar α] in
theorem map_heading_modify {f : Row α → Row α} (hf : ∀ r, (f r).heading = r.heading)
    (rows : List (Row α)) (i : ℕ) :
    (rows.modify i f).map Row.heading = rows.map Row.heading := Dense.map_modify hf rows i

theorem sheet_setCoefficients (hi : i < m.nrRows) (v : Sparse α) :
    sheet { m with rows := m.rows.modify i fun r => { r with coefficients := v } }
      = m.sheet.setRow (i + 1) (numbered v.get) := by
  refine Sheet.ext ?_ (map_heading_modify (by intro r; rfl) m.rows i) rfl rfl
  funext row column
  cases column with
  | zero => exact (ite_self _).symm
  | succ j => exact cell_setCoefficients hi v row j

theorem sheet_setElement? (hm : m.Canonical) {row : ℕ} {x : α}
    (h : m.setElement? row k x = some m') :
    m'.sheet = m.sheet.setCell row (k + 1) (Scalar.written x) := by
  have hcell : m'.sheet.cell = (m.sheet.setCell row (k + 1) (Scalar.written x)).cell := by
    funext r column
    cases column with
    | zero => exact (if_neg fun h => absurd h.2 (Nat.succ_ne_zero k).symm).symm
    | succ j =>
        have hplace : (r = row ∧ j + 1 = k + 1) ↔ (r = row ∧ j = k) := by omega
        simp only [Sheet.setCell, hplace]
        exact cell_setElement? hm h r j
  cases row with
  | zero =>
      obtain rfl := Option.some.inj h
      exact Sheet.ext hcell rfl rfl rfl
  | succ i =>
      obtain ⟨-, rfl⟩ := of_modifyRow? h
      exact Sheet.ext hcell (map_heading_modify (by intro r; rfl) m.rows i) rfl rfl

omit [Scalar α] in
theorem map_heading {rows rows' : List (Row α)} {g : ℕ → Row α → Row α}
    (h : ∀ i, rows'[i]? = rows[i]?.map (g i)) (hg : ∀ i r, (g i r).heading = r.heading) :
    rows'.map Row.heading = rows.map Row.heading := by
  refine List.ext_getElem? ?_
  intro i
  rw [List.getElem?_map, List.getElem?_map, h, Option.map_map]
  exact congrArg (fun f => rows[i]?.map f) (funext (hg i))

theorem sheet_scatter (hm : m.Canonical) (hvalues : values.Canonical m.nrRows) (cost : α)
    (c : Column α) :
    sheet { m with
        columns := m.columns ++ [c]
        cost := m.cost.set m.nrColumns cost
        rows := scatter m.nrColumns values m.rows }
      = m.sheet.appendColumn c fun r => Scalar.written (columnEntry cost values r) := by
  refine Sheet.ext ?_ (map_heading (getElem?_scatter hvalues.sorted _ _) ?_) rfl rfl
  · funext row column
    cases column with
    | zero =>
        simp only [Sheet.appendColumn]
        exact (if_neg (Nat.succ_ne_zero m.sheet.nrColumns).symm).symm
    | succ j =>
        simp only [Sheet.appendColumn, Nat.add_right_cancel_iff]
        exact cell_scatter hm hvalues cost c row j
  · intro i r
    cases values.lookup i with
    | none => rfl
    | some x => rfl

theorem sheet_setColumn (hm : m.Canonical) (hvalues : values.Canonical m.nrRows) (k : ℕ)
    (cost : α) :
    (m.setColumn k cost values).sheet
      = m.sheet.setColumn (k + 1) fun r => Scalar.written (columnEntry cost values r) := by
  refine Sheet.ext ?_ (map_heading (getElem?_spread hvalues.sorted (fun _ _ => Nat.zero_le _) _ _)
    fun _ _ => rfl) rfl rfl
  funext row column
  cases column with
  | zero =>
      simp only [Sheet.setColumn]
      exact (if_neg (Nat.succ_ne_zero k).symm).symm
  | succ j =>
      simp only [Sheet.setColumn, Nat.add_right_cancel_iff]
      exact cell_setColumn hm hvalues k cost row j

theorem sheet_deleteColumn (m : Model α) (k : ℕ) :
    (m.deleteColumn k).sheet = m.sheet.deleteColumn (k + 1) := by
  refine Sheet.ext ?_ List.map_map rfl rfl
  funext row column
  cases column with
  | zero => rfl
  | succ j =>
      simp only [Sheet.deleteColumn, Nat.add_lt_add_iff_right]
      refine (cell_deleteColumn m k row j).trans ?_
      split
      · rfl
      · rfl

theorem sheet_deleteRow (m : Model α) (i : ℕ) :
    (m.deleteRow i).sheet = m.sheet.deleteRow (i + 1) := by
  refine Sheet.ext ?_ (List.eraseIdx_map Row.heading m.rows i).symm rfl rfl
  funext row column
  cases column with
  | zero => rfl
  | succ j => exact cell_deleteRow m i row j

end Model
end LinProg
