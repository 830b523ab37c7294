/-
A linear program built by rows and the same one built by columns.

By rows every line of the table is read, merged and stored at once.  By columns
the rows are there from the start, and each column writes one entry into every
row that it has an entry for.  The first way brings the sheet of the engine
further by a row with every edit, and the second by a column; when all is
written both have come to the sheet of the table, and as both store it in the
same form they store the same.
-/
import LinProg.Proofs.Engine.Dense
import LinProg.Proofs.Model.Determined

namespace LinProg

variable {α : Type}

/-! ## Tables -/

/-- A linear program written out, its rows and columns numbered from zero. -/
structure Table (α : Type) where
  cost : ℕ → α
  entry : ℕ → ℕ → α
  relation : ℕ → Relation
  rightHandSide : ℕ → α

namespace Table

/-- The objective, and then one row after the other, of a table with `m` rows and `n` columns. -/
def byRows (t : Table α) (m n : ℕ) : List (Engine.Edit α) :=
  .setObjectiveDense ((List.range n).map t.cost) ::
    (List.range m).map fun i =>
      .appendConstraintDense ((List.range n).map (t.entry i)) (t.relation i) (t.rightHandSide i)

/-- One column after the other, each with its cost in front, and then what the rows are besides
their coefficients. -/
def byColumns (t : Table α) (m n : ℕ) : List (Engine.Edit α) :=
  ((List.range n).map fun j =>
      .appendColumnDense (t.cost j :: (List.range m).map fun i => t.entry i j)) ++
    (List.range m).flatMap fun i =>
      [.setRelation (i + 1) (t.relation i), .setRightHandSide (i + 1) (t.rightHandSide i)]

def line (t : Table α) : ℕ → ℕ → α
  | 0 => t.cost
  | i + 1 => t.entry i

def heading (t : Table α) (i : ℕ) : Heading α := ⟨t.relation i, t.rightHandSide i, none, none⟩

variable [Scalar α]

/-- What is read in the first rows and columns when these are written and nothing else is. -/
def cells (t : Table α) (rows columns row column : ℕ) : α :=
  if row ≤ rows ∧ 1 ≤ column ∧ column ≤ columns then Scalar.written (t.line row (column - 1))
  else 0

/-- The sheet of the rows with the given headings and the first columns. -/
def sheet (t : Table α) (infinity : α) (headings : List (Heading α)) (columns : ℕ) : Sheet α where
  cell := t.cells headings.length columns
  headings := headings
  columns := List.replicate columns (Column.nonnegative infinity)
  sense := .minimize

variable {t : Table α} {infinity : α} {headings : List (Heading α)} {m n : ℕ}

/-! ## The sheet of a table -/

theorem dense_line (row column : ℕ) :
    Listing.dense 1 ((List.range n).map (t.line row)) column
      = if 1 ≤ column ∧ column ≤ n then Scalar.written (t.line row (column - 1)) else 0 := by
  rw [Listing.dense, Scalar.written_getD_range, ← ite_and]
  exact if_congr (by omega) rfl rfl

theorem dense_column (j row : ℕ) :
    Listing.dense 0 (t.cost j :: (List.range m).map fun i => t.entry i j) row
      = if row ≤ m then Scalar.written (t.line row j) else 0 := by
  rw [Listing.dense, if_pos row.zero_le, Nat.sub_zero]
  cases row with
  | zero => rfl
  | succ i => exact Scalar.written_getD_range (fun i => t.entry i j) m i

theorem setRow_sheet :
    Sheet.setRow 0 (Listing.dense 1 ((List.range n).map t.cost))
        ⟨fun _ _ => 0, [], List.replicate n (Column.nonnegative infinity), .minimize⟩
      = t.sheet infinity [] n := by
  refine Sheet.ext ?_ rfl rfl rfl
  funext row column
  cases row with
  | zero =>
      refine (dense_line (t := t) 0 column).trans ?_
      exact if_congr (and_iff_right le_rfl).symm rfl rfl
  | succ i =>
      have hpast : ¬ (i + 1 ≤ 0 ∧ 1 ≤ column ∧ column ≤ n) := fun h => Nat.not_succ_le_zero i h.1
      show (0 : α) = t.cells 0 n (i + 1) column
      rw [cells, if_neg hpast]

theorem appendRow_sheet (t : Table α) (infinity : α) (headings : List (Heading α)) (n : ℕ) :
    (t.sheet infinity headings n).appendRow (t.heading headings.length)
        (Listing.dense 1 ((List.range n).map (t.entry headings.length)))
      = t.sheet infinity (headings ++ [t.heading headings.length]) n := by
  refine Sheet.ext ?_ rfl rfl rfl
  funext row column
  show (if row = headings.length + 1 then _ else t.cells headings.length n row column)
    = t.cells (headings ++ [t.heading headings.length]).length n row column
  rw [List.length_append, List.length_singleton, cells, cells]
  split
  · rename_i hrow
    subst hrow
    refine (dense_line (t := t) (headings.length + 1) column).trans ?_
    exact if_congr (and_iff_right le_rfl).symm rfl rfl
  · exact if_congr (by omega) rfl rfl

theorem appendColumn_sheet {j : ℕ} :
    (t.sheet infinity headings j).appendColumn (Column.nonnegative infinity)
        (Listing.dense 0 (t.cost j :: (List.range headings.length).map fun i => t.entry i j))
      = t.sheet infinity headings (j + 1) := by
  refine Sheet.ext ?_ rfl List.replicate_succ'.symm rfl
  funext row column
  show (if column = (List.replicate j (Column.nonnegative infinity)).length + 1 then _
    else t.cells headings.length j row column) = t.cells headings.length (j + 1) row column
  rw [List.length_replicate, cells, cells]
  split
  · rename_i hcolumn
    subst hcolumn
    rw [dense_column]
    exact if_congr (by omega) rfl rfl
  · exact if_congr (by omega) rfl rfl

end Table

/-! ## Edits that are all accepted -/

namespace Engine

variable [Scalar α] {e e' : Engine α} {config : Config α} {s s' : Sheet α} {edit : Edit α}

/-- The engine after edits of which none is refused. -/
def acceptAll? (e : Engine α) (edits : List (Edit α)) : Option (Engine α) :=
  edits.foldlM (fun e edit => edit.result? e) e

theorem performAll_of_acceptAll? {edits : List (Edit α)} (h : e.acceptAll? edits = some e') :
    e.performAll edits = e' := by
  induction edits generalizing e with
  | nil => exact Option.some.inj h
  | cons edit edits ih =>
      obtain ⟨d, hd, hrest⟩ := Option.bind_eq_some_iff.mp h
      have hperform : (e.perform edit).2 = d := congrArg Prod.snd (perform_of_result? hd)
      rw [← ih hrest, ← hperform]
      rfl

/-- An engine that shows a sheet, stores it in the usual form and is open to every edit. -/
structure Shows (config : Config α) (s : Sheet α) (e : Engine α) : Prop where
  canonical : e.model.Canonical
  sheet : e.sheet = s
  mode : e.rowMode = false
  config : e.config = config

theorem Shows.nrRows (h : Shows config s e) : e.nrRows = s.headings.length := by
  rw [← h.sheet]
  exact (nrRows_sheet e).symm

theorem Shows.nrColumns (h : Shows config s e) : e.nrColumns = s.columns.length := by
  rw [← h.sheet]
  rfl

/-- An engine goes from one sheet to another by edits that it accepts. -/
def Leads (config : Config α) (s : Sheet α) (edits : List (Edit α)) (s' : Sheet α) : Prop :=
  ∀ e, Shows config s e → ∃ e', e.acceptAll? edits = some e' ∧ Shows config s' e'

theorem Leads.append {edits edits' : List (Edit α)} {s'' : Sheet α}
    (h : Leads config s edits s') (h' : Leads config s' edits' s'') :
    Leads config s (edits ++ edits') s'' := by
  intro e he
  obtain ⟨d, hd, hshows⟩ := h e he
  obtain ⟨e', he', hshows'⟩ := h' d hshows
  refine ⟨e', ?_, hshows'⟩
  rw [acceptAll?, List.foldlM_append]
  exact Option.bind_eq_some_iff.mpr ⟨d, hd, he'⟩

theorem Leads.trans_eq {edits : List (Edit α)} {s'' : Sheet α} (h : Leads config s edits s')
    (hs : s' = s'') : Leads config s edits s'' := hs ▸ h

theorem leads_of_edited {f : Sheet α → Sheet α}
    (haccepted : ∀ e, Shows config s e → (edit.result? e).isSome = true)
    (hsheet : ∀ e, Shows config s e → edit.onSheet? e = some f) :
    Leads config s [edit] (f s) := by
  intro e he
  obtain ⟨e', he'⟩ := Option.isSome_iff_exists.mp (haccepted e he)
  obtain ⟨hedited, m, hm⟩ := edited_result? he.canonical (hsheet e he) he'
  have haccept : e.acceptAll? [edit] = some e' := Option.bind_eq_some_iff.mpr ⟨e', he', rfl⟩
  refine ⟨e', haccept, canonical_result? he.canonical he', ?_, ?_, ?_⟩
  · rw [hedited, he.sheet]
  · rw [hm]
    exact he.mode
  · rw [hm]
    exact he.config

/-- What edits lead to of which each one leads one sheet of a sequence to the next. -/
theorem leads_map_range {edits : ℕ → List (Edit α)} {n : ℕ} (S : ℕ → Sheet α)
    (h : ∀ i < n, Leads config (S i) (edits i) (S (i + 1))) :
    Leads config (S 0) ((List.range n).flatMap edits) (S n) := by
  induction n with
  | zero => exact fun e he => ⟨e, rfl, he⟩
  | succ n ih =>
      rw [List.range_succ, List.flatMap_append, List.flatMap_singleton]
      exact (ih fun i hi => h i (Nat.lt_succ_of_lt hi)).append (h n (Nat.lt_succ_self n))

omit [Scalar α] in
theorem map_heading_modify_eq {f : Row α → Row α} {g : Heading α → Heading α}
    (hg : ∀ r, (f r).heading = g r.heading) (rows : List (Row α)) (i : ℕ) :
    (rows.modify i f).map Row.heading = (rows.map Row.heading).modify i g := by
  refine List.ext_getElem? ?_
  intro k
  simp only [List.getElem?_map, List.getElem?_modify, Option.map_eq_map, Option.map_map]
  refine congrArg (fun f => rows[k]?.map f) (funext fun r => ?_)
  simp only [Function.comp_apply]
  split
  · exact hg r
  · rfl

/-- Where an edit changes what a row is besides its coefficients it changes one heading. -/
theorem leads_of_editRow? {i : ℕ} {f : Row α → Row α} {g : Heading α → Heading α}
    (hresult : ∀ e, edit.result? e = e.editRow? (i + 1) f)
    (hf : ∀ r, (f r).coefficients = r.coefficients) (hg : ∀ r, (f r).heading = g r.heading)
    (hi : i < s.headings.length) :
    Leads config s [edit] { s with headings := s.headings.modify i g } := by
  intro e he
  have hrow : i < e.nrRows := hi.trans_eq he.nrRows.symm
  have hindex : e.rowIndex? (i + 1) = some i := rowIndex?_eq_some.mpr ⟨rfl, hrow⟩
  have hmodify : e.model.modifyRow? i f
      = some { e.model with rows := e.model.rows.modify i f } := if_pos hrow
  have hedit : e.editRow? (i + 1) f
      = some (e.withModel { e.model with rows := e.model.rows.modify i f }) := by
    rw [editRow?, hindex, Option.bind_eq_bind, Option.bind_some, hmodify]
    rfl
  have hcanonical := canonical_editRow? he.canonical hedit hf
  refine ⟨_, Option.bind_eq_some_iff.mpr ⟨_, (hresult e).trans hedit, rfl⟩, hcanonical, ?_, he.mode,
    he.config⟩
  rw [← he.sheet]
  refine Sheet.ext (cells_eq he.canonical hcanonical (sameMatrix_editRow? hf hedit)) ?_ rfl rfl
  exact map_heading_modify_eq hg e.model.rows i

/-! ## Both ways -/

variable {t : Table α} {m n : ℕ}

theorem shows_create (rows columns : ℕ) (config : Config α) :
    Shows config
      ⟨fun _ _ => 0, List.replicate rows Row.empty.heading,
        List.replicate columns (Column.nonnegative config.infinity), .minimize⟩
      (create rows columns config) where
  canonical := Model.canonical_blank rows columns config.infinity
  sheet := by
    rw [sheet_eq (Model.canonical_blank rows columns config.infinity)]
    refine Sheet.ext ?_ List.map_replicate rfl rfl
    funext row column
    cases column with
    | zero => rfl
    | succ j =>
        cases row with
        | zero => rfl
        | succ i =>
            refine (Model.cell_succ _ i j).trans ?_
            show (((List.replicate rows Row.empty)[i]?).map _).getD 0 = (0 : α)
            rw [List.getElem?_replicate]
            split
            · rfl
            · rfl
  mode := rfl
  config := rfl

theorem leads_setObjective :
    Leads config
      ⟨fun _ _ => 0, [], List.replicate n (Column.nonnegative config.infinity), .minimize⟩
      [.setObjectiveDense ((List.range n).map t.cost)] (t.sheet config.infinity [] n) := by
  rw [← Table.setRow_sheet]
  refine leads_of_edited ?_ fun _ _ => rfl
  intro e he
  refine isSome_setObjectiveDense?.mpr (fits_of_length_le ?_)
  rw [he.nrColumns]
  simp

theorem leads_appendConstraint (i : ℕ) :
    Leads config (t.sheet config.infinity ((List.range i).map t.heading) n)
      [.appendConstraintDense ((List.range n).map (t.entry i)) (t.relation i) (t.rightHandSide i)]
      (t.sheet config.infinity ((List.range (i + 1)).map t.heading) n) := by
  have hsheet := t.appendRow_sheet config.infinity ((List.range i).map t.heading) n
  rw [List.length_map, List.length_range] at hsheet
  rw [List.range_succ, List.map_append, List.map_singleton, ← hsheet]
  refine leads_of_edited ?_ fun _ _ => rfl
  intro e he
  refine (isSome_appendConstraintDense? _ _).mpr (fits_of_length_le ?_)
  rw [he.nrColumns]
  simp [Table.sheet]

theorem leads_byRows (t : Table α) (m n : ℕ) :
    Leads config
      ⟨fun _ _ => 0, [], List.replicate n (Column.nonnegative config.infinity), .minimize⟩
      (t.byRows m n) (t.sheet config.infinity ((List.range m).map t.heading) n) := by
  refine leads_setObjective.append ?_
  rw [List.map_eq_flatMap]
  exact leads_map_range (fun i => t.sheet config.infinity ((List.range i).map t.heading) n)
    fun i _ => leads_appendConstraint i

theorem leads_appendColumn {headings : List (Heading α)} (hm : headings.length = m) (j : ℕ) :
    Leads config (t.sheet config.infinity headings j)
      [.appendColumnDense (t.cost j :: (List.range m).map fun i => t.entry i j)]
      (t.sheet config.infinity headings (j + 1)) := by
  subst hm
  rw [← Table.appendColumn_sheet]
  refine leads_of_edited ?_ ?_
  · intro e he
    refine (isSome_appendColumnDense? he.mode).mpr (fits_of_length_le ?_)
    rw [he.nrRows, List.length_cons, List.length_map, List.length_range, Nat.add_comm]
    rfl
  · intro e he
    rw [Edit.onSheet?, he.config]

/-- The headings of which the first ones are those of a table, and the others are new. -/
def headingsTo (t : Table α) (m k : ℕ) : List (Heading α) :=
  (List.range m).map fun i => if i < k then t.heading i else Row.empty.heading

theorem length_headingsTo (t : Table α) (m k : ℕ) : (headingsTo t m k).length = m := by
  rw [headingsTo, List.length_map, List.length_range]

theorem headingsTo_succ (t : Table α) (m k : ℕ) :
    ((headingsTo t m k).modify k fun h => { h with relation := t.relation k }).modify k
        (fun h => { h with rightHandSide := t.rightHandSide k })
      = headingsTo t m (k + 1) := by
  refine List.ext_getElem (by simp [headingsTo]) ?_
  intro i hi _
  simp only [List.getElem_modify, headingsTo, List.getElem_map, List.getElem_range]
  rcases lt_trichotomy i k with h | rfl | h
  · simp [h.ne', h, Nat.lt_succ_of_lt h]
  · simp [Table.heading, Row.empty, Row.plain, Row.heading]
  · simp [h.ne, h.not_gt, Nat.not_lt.mpr (Nat.succ_le_of_lt h)]

theorem leads_setRelation (relation : Relation) {k : ℕ} (hk : k < s.headings.length) :
    Leads config s [.setRelation (k + 1) relation]
      { s with headings := s.headings.modify k fun h => { h with relation := relation } } :=
  leads_of_editRow? (fun _ => rfl) (fun _ => rfl) (fun _ => rfl) hk

theorem leads_setRightHandSide (b : α) {k : ℕ} (hk : k < s.headings.length) :
    Leads config s [.setRightHandSide (k + 1) b]
      { s with headings := s.headings.modify k fun h => { h with rightHandSide := b } } :=
  leads_of_editRow? (fun _ => rfl) (fun _ => rfl) (fun _ => rfl) hk

theorem leads_setHeading {k : ℕ} (hk : k < m) :
    Leads config (t.sheet config.infinity (headingsTo t m k) n)
      [.setRelation (k + 1) (t.relation k), .setRightHandSide (k + 1) (t.rightHandSide k)]
      (t.sheet config.infinity (headingsTo t m (k + 1)) n) := by
  have hrow : k < (t.sheet config.infinity (headingsTo t m k) n).headings.length :=
    hk.trans_eq (length_headingsTo t m k).symm
  -- no cell has changed, as there are as many headings as before
  have hcells : (t.sheet config.infinity (headingsTo t m k) n).cell
      = (t.sheet config.infinity (headingsTo t m (k + 1)) n).cell := by
    simp only [Table.sheet, length_headingsTo]
  refine ((leads_setRelation (t.relation k) hrow).append
    (leads_setRightHandSide (t.rightHandSide k) ?_)).trans_eq ?_
  · exact hrow.trans_eq (List.length_modify _ _ _).symm
  · exact Sheet.ext hcells (headingsTo_succ t m k) rfl rfl

theorem leads_byColumns (t : Table α) (m n : ℕ) :
    Leads config
      ⟨fun _ _ => 0, List.replicate m Row.empty.heading, [], .minimize⟩
      (t.byColumns m n) (t.sheet config.infinity ((List.range m).map t.heading) n) := by
  have hcolumns : Leads config _ ((List.range n).flatMap fun j => [.appendColumnDense
      (t.cost j :: (List.range m).map fun i => t.entry i j)]) _ :=
    leads_map_range (fun j => t.sheet config.infinity (headingsTo t m 0) j)
      fun j _ => leads_appendColumn (length_headingsTo t m 0) j
  have hheadings : Leads config _ ((List.range m).flatMap fun k =>
      [.setRelation (k + 1) (t.relation k), .setRightHandSide (k + 1) (t.rightHandSide k)]) _ :=
    leads_map_range (fun k => t.sheet config.infinity (headingsTo t m k) n)
      fun k hk => leads_setHeading hk
  have hfirst : t.sheet config.infinity (headingsTo t m 0) 0
      = ⟨fun _ _ => 0, List.replicate m Row.empty.heading, [], .minimize⟩ := by
    refine Sheet.ext ?_ ?_ rfl rfl
    · funext row column
      exact if_neg fun h => absurd (h.2.1.trans h.2.2) (Nat.not_succ_le_zero 0)
    · simp [Table.sheet, headingsTo]
  have hlast : headingsTo t m m = (List.range m).map t.heading := by
    refine List.map_congr_left ?_
    intro i hi
    exact if_pos (List.mem_range.mp hi)
  rw [← List.map_eq_flatMap] at hcolumns
  rw [← hfirst, ← hlast]
  exact hcolumns.append hheadings

/-- A table may be written by rows into an engine without rows, or by columns into one without
columns: no edit is refused, the models that are stored in the end are the same, and what they say
is the table. -/
theorem rows_or_columns (hzero : Scalar.isZero (0 : α) = true) (t : Table α) (m n : ℕ)
    (config : Config α) :
    ∃ d e, (create 0 n config).acceptAll? (t.byRows m n) = some d ∧
      (create m 0 config).acceptAll? (t.byColumns m n) = some e ∧ d.model = e.model ∧
      d.sheet = t.sheet config.infinity ((List.range m).map t.heading) n ∧
      (create 0 n config).performAll (t.byRows m n) = d ∧
      (create m 0 config).performAll (t.byColumns m n) = e := by
  obtain ⟨d, hd, hrows⟩ := leads_byRows t m n _ (shows_create 0 n config)
  obtain ⟨e, he, hcolumns⟩ := leads_byColumns t m n _ (shows_create m 0 config)
  refine ⟨d, e, hd, he, ?_, hrows.sheet, performAll_of_acceptAll? hd, performAll_of_acceptAll? he⟩
  refine hrows.canonical.ext_sheet hcolumns.canonical hzero ?_
  rw [← sheet_eq hrows.canonical, ← sheet_eq hcolumns.canonical, hrows.sheet, hcolumns.sheet]

/-- A table in floating point numbers with zeros of both signs, an undefined entry and an empty
row in its three rows and two columns. -/
def rough : Table Float where
  cost j := [-0.0, 2.5].getD j 0
  entry i j := ([[1.5, -0.0], [0.0, 0.0 / 0.0], [-0.0, 0.0]].getD i []).getD j 0
  relation i := [.less, .equal].getD i .greater
  rightHandSide i := [4.0, -0.0].getD i 1.0

theorem rows_or_columns_rough :
    Scalar.isZero (0 : Float) = true ∧
      ∃ d e, (create 0 2 .standard).acceptAll? (rough.byRows 3 2) = some d ∧
        (create 3 0 .standard).acceptAll? (rough.byColumns 3 2) = some e ∧ d.model = e.model ∧
        e.model.cost.map Prod.fst = [1] ∧
        e.model.rows.map (fun r => r.coefficients.map Prod.fst) = [[0], [1], []] := by
  have hzero : Scalar.isZero (0 : Float) = true := by decide
  obtain ⟨d, e, hd, he, hmodel, -, -, hperform⟩ := rows_or_columns hzero rough 3 2 .standard
  refine ⟨hzero, d, e, hd, he, hmodel, ?_, ?_⟩
  · rw [← hperform]
    decide +kernel
  · rw [← hperform]
    decide +kernel

end Engine
end LinProg
