/-
Reading and writing whole rows and columns.

The objective, the rows and the columns are slices of the sheet of an engine.
What is written into a slice of a sheet is what is read there, and writing what
is read changes nothing.  Between a dense vector and a slice something may get
lost: the vector is cut or filled up with zeros, and its zeros lose their sign.
A vector that was read has the right length and no zero with a sign, so it is
written without loss; and as the sheet determines what is stored, the engine
then stores what it stored before.

A text is split into tokens, and is the list of the numbers that these denote,
or nothing if one of them denotes none.
-/
import LinProg.Proofs.Engine.Dense
import LinProg.Proofs.Model.Determined
import LinProg.Proofs.Text.Grammar
import LinProg.Solver.Views

namespace LinProg

variable {α : Type}

/-- A row or a column; row 0 is the objective. -/
inductive Slice where
  | row (row : ℕ)
  | column (column : ℕ)

namespace Slice

variable {l : Slice}

/-! ## Slices of a sheet -/

def first : Slice → ℕ
  | row _ => 1
  | column _ => 0

def get : Slice → Sheet α → ℕ → α
  | row r, s => s.cell r
  | column c, s => fun r => s.cell r c

def set : Slice → (ℕ → α) → Sheet α → Sheet α
  | row r => Sheet.setRow r
  | column c => Sheet.setColumn c

theorem get_set (l : Slice) (f : ℕ → α) (s : Sheet α) : l.get (l.set f s) = f := by
  cases l with
  | row r => exact funext fun c => if_pos rfl
  | column c => exact funext fun r => if_pos rfl

theorem set_get (l : Slice) (s : Sheet α) : l.set (l.get s) s = s := by
  cases l with
  | row r =>
      refine Sheet.ext ?_ rfl rfl rfl
      funext r' c
      show (if r' = r then s.cell r c else s.cell r' c) = s.cell r' c
      split
      · rename_i h
        rw [h]
      · rfl
  | column c =>
      refine Sheet.ext ?_ rfl rfl rfl
      funext r c'
      show (if c' = c then s.cell r c else s.cell r c') = s.cell r c'
      split
      · rename_i h
        rw [h]
      · rfl

theorem nrRows_set (l : Slice) (f : ℕ → α) (s : Sheet α) : (l.set f s).nrRows = s.nrRows := by
  cases l with
  | row r => rfl
  | column c => rfl

theorem nrColumns_set (l : Slice) (f : ℕ → α) (s : Sheet α) :
    (l.set f s).nrColumns = s.nrColumns := by
  cases l with
  | row r => rfl
  | column c => rfl

/-! ## Slices of an engine -/

def length (e : Engine α) : Slice → ℕ
  | row _ => e.nrColumns
  | column _ => 1 + e.nrRows

def Inside (e : Engine α) : Slice → Prop
  | row r => r ≤ e.nrRows
  | column c => 1 ≤ c ∧ c ≤ e.nrColumns

instance (e : Engine α) : (l : Slice) → Decidable (l.Inside e)
  | row r => inferInstanceAs (Decidable (r ≤ e.nrRows))
  | column c => inferInstanceAs (Decidable (1 ≤ c ∧ c ≤ e.nrColumns))

section Size

variable {e e' : Engine α} (hrows : e'.nrRows = e.nrRows) (hcolumns : e'.nrColumns = e.nrColumns)

include hrows hcolumns

theorem length_eq : l.length e' = l.length e := by
  cases l with
  | row r => exact hcolumns
  | column c => exact congrArg (1 + ·) hrows

theorem inside_iff : l.Inside e' ↔ l.Inside e := by
  cases l with
  | row r =>
      show r ≤ e'.nrRows ↔ r ≤ e.nrRows
      rw [hrows]
  | column c =>
      show 1 ≤ c ∧ c ≤ e'.nrColumns ↔ 1 ≤ c ∧ c ≤ e.nrColumns
      rw [hcolumns]

end Size

def write : Slice → List α → Engine.Edit α
  | row 0 => .setObjectiveDense
  | row (i + 1) => .setRowDense (i + 1)
  | column c => .setColumnDense c

variable [Scalar α]

def read? (e : Engine α) : Slice → Option (List α)
  | row r => e.rowValues? r
  | column c => e.columnValues? c

/-- The values of a slice of an engine as its sheet has them. -/
def shown (e : Engine α) (l : Slice) : List α :=
  (List.range (l.length e)).map fun k => l.get e.sheet (l.first + k)

variable {e e' : Engine α} {values : List α}

theorem length_shown : (l.shown e).length = l.length e := by
  rw [shown, List.length_map, List.length_range]

theorem onSheet?_write (l : Slice) (values : List α) (e : Engine α) :
    (l.write values).onSheet? e = some (l.set (Listing.dense l.first values)) := by
  cases l with
  | row r =>
      cases r with
      | zero => rfl
      | succ i => rfl
  | column c => rfl

theorem isSome_write (hmode : e.rowMode = false) (hl : l.Inside e) :
    ((l.write values).result? e).isSome ↔ Fits (l.length e) values := by
  cases l with
  | row r =>
      cases r with
      | zero => exact Engine.isSome_setObjectiveDense?
      | succ i => exact Engine.isSome_setRowDense? hmode hl
  | column c =>
      obtain ⟨j, rfl⟩ : ∃ j, c = j + 1 := ⟨c - 1, by have := hl.1; omega⟩
      exact Engine.isSome_setColumnDense? hmode hl.2

theorem read?_eq (he : e.model.Canonical) (hl : l.Inside e) :
    l.read? e = some (l.shown e) := by
  cases l with
  | row r =>
      refine (Engine.rowValues?_eq_cells he r).trans ((if_pos hl).trans ?_)
      simp only [shown, length, first, get, Nat.add_comm 1]
  | column c =>
      refine (Engine.columnValues?_eq_cells he c).trans ((if_pos hl).trans ?_)
      simp only [shown, length, first, get, Nat.zero_add, Nat.add_comm 1]

/-- There is nothing in a slice before its first value and after its last one. -/
theorem get_eq_zero (he : e.model.Canonical) {k : ℕ} (hk : k < l.first ∨ l.first + l.length e ≤ k) :
    l.get e.sheet k = 0 := by
  rw [Engine.sheet_eq he]
  cases l with
  | row r =>
      cases k with
      | zero => rfl
      | succ j =>
          have hj : e.nrColumns ≤ j := by
            simp only [first, length] at hk
            omega
          exact he.cell_eq_zero hj r
  | column c =>
      cases c with
      | zero => rfl
      | succ j =>
          obtain ⟨i, rfl⟩ : ∃ i, k = i + 1 := ⟨k - 1, by simp only [first, length] at hk; omega⟩
          have hi : e.model.rows.length ≤ i := by
            have hrows : e.model.rows.length = e.nrRows := rfl
            simp only [first, length] at hk
            omega
          refine (Model.cell_succ e.model i j).trans ?_
          rw [List.getElem?_eq_none hi]
          rfl

theorem written_get (he : e.model.Canonical) (l : Slice) (k : ℕ) :
    Scalar.written (l.get e.sheet k) = l.get e.sheet k := by
  have hcell : ∀ r c, Scalar.written (e.sheet.cell r c) = e.sheet.cell r c := by
    intro r c
    rw [Engine.sheet_eq he]
    cases c with
    | zero => exact Scalar.written_zero
    | succ j =>
        rcases he.cell_nonzero r j with hzero | hnonzero
        · show Scalar.written (e.model.cell r j) = e.model.cell r j
          rw [hzero, Scalar.written_zero]
        · exact Scalar.written_of_nonzero hnonzero
  cases l with
  | row r => exact hcell r k
  | column c => exact hcell k c

/-- Nothing is lost when values are written that were read. -/
theorem dense_shown (he : e.model.Canonical) (l : Slice) :
    Listing.dense l.first (l.shown e) = l.get e.sheet := by
  funext k
  rw [Listing.dense, shown]
  split
  · rename_i hle
    rw [Scalar.written_getD_range (fun k => l.get e.sheet (l.first + k)), Nat.add_sub_cancel' hle]
    split
    · exact written_get he l k
    · exact (get_eq_zero he (Or.inr (by omega))).symm
  · exact (get_eq_zero he (Or.inl (by omega))).symm

end Slice

/-! ## There and back -/

variable [Scalar α]

/-- Values cut or filled up with zeros to a length, and without negative zeros. -/
def fitted (n : ℕ) (values : List α) : List α :=
  (values.take n ++ List.replicate (n - values.length) 0).map Scalar.written

theorem fitted_eq (n : ℕ) (values : List α) :
    fitted n values = (List.range n).map fun k => Scalar.written (values.getD k 0) := by
  refine List.ext_getElem (by simp [fitted]; omega) ?_
  intro k hk hk'
  rw [List.length_map, List.length_range] at hk'
  simp only [fitted, List.getElem_map, List.getElem_range, List.getElem_append]
  congr 1
  split
  · rename_i hlength
    rw [List.length_take] at hlength
    rw [List.getElem_take, List.getD_eq_getElem]
  · rename_i hlength
    rw [List.length_take] at hlength
    rw [List.getElem_replicate, List.getD_eq_default]
    omega

namespace Engine

variable {e e' : Engine α} {edit : Edit α} {l : Slice} {values : List α}

/-- Reading a slice of an engine and writing it undo each other. -/
structure RoundTrip (e : Engine α) (l : Slice) : Prop where
  /-- What is read can be written back, and the model is then as it was. -/
  rewrite : ∃ values, l.read? e = some values ∧ values.length = l.length e ∧
    (e.perform (l.write values)).1 = true ∧ (e.perform (l.write values)).2.model = e.model
  /-- What is accepted is what is zero past the end of the slice. -/
  accepted : ∀ values, (e.perform (l.write values)).1 = true ↔ Fits (l.length e) values
  /-- What was written is read, up to its length and the sign of its zeros. -/
  reread : ∀ values, (e.perform (l.write values)).1 = true →
    l.read? (e.perform (l.write values)).2 = some (fitted (l.length e) values)

theorem edited_write (he : e.model.Canonical) (h : (l.write values).result? e = some e') :
    Edited (l.set (Listing.dense l.first values)) e e' :=
  edited_result? he (l.onSheet?_write values e) h

theorem reread_write (he : e.model.Canonical) (hl : l.Inside e)
    (h : (l.write values).result? e = some e') :
    l.read? e' = some (fitted (l.length e) values) := by
  have hsheet := (edited_write he h).sheet
  have hrows : e'.nrRows = e.nrRows := by
    rw [← nrRows_sheet, ← nrRows_sheet, hsheet, Slice.nrRows_set]
  have hcolumns : e'.nrColumns = e.nrColumns := by
    rw [← nrColumns_sheet, ← nrColumns_sheet, hsheet, Slice.nrColumns_set]
  have hl' : l.Inside e' := (Slice.inside_iff hrows hcolumns).mpr hl
  rw [Slice.read?_eq (canonical_result? he h) hl', Slice.shown, Slice.length_eq hrows hcolumns,
    hsheet, Slice.get_set, fitted_eq]
  simp only [Listing.dense, Nat.le_add_right, if_true, Nat.add_sub_cancel_left]

theorem rewrite_read (he : e.model.Canonical) (hzero : Scalar.isZero (0 : α) = true)
    (h : (l.write (l.shown e)).result? e = some e') : e'.model = e.model := by
  have hcanonical := canonical_result? he h
  refine hcanonical.ext_sheet he hzero ?_
  rw [← sheet_eq hcanonical, ← sheet_eq he, (edited_write he h).sheet, Slice.dense_shown he,
    Slice.set_get]

theorem roundTrip (he : e.model.Canonical) (hzero : Scalar.isZero (0 : α) = true)
    (hmode : e.rowMode = false) (hl : l.Inside e) : e.RoundTrip l where
  rewrite := by
    refine ⟨_, Slice.read?_eq he hl, Slice.length_shown, ?_⟩
    have hfits : Fits (l.length e) (l.shown e) := fits_of_length_le Slice.length_shown.le
    obtain ⟨e', he'⟩ := Option.isSome_iff_exists.mp ((Slice.isSome_write hmode hl).mpr hfits)
    rw [perform_of_result? he']
    exact ⟨rfl, rewrite_read he hzero he'⟩
  accepted values := perform_fst.trans (Slice.isSome_write hmode hl)
  reread values h := by
    obtain ⟨e', he'⟩ := Option.isSome_iff_exists.mp (perform_fst.mp h)
    rw [perform_of_result? he']
    exact reread_write he hl he'

/-! ## Text -/

theorem Spells.perform_eq {spelled : String → Edit α} {edit : List α → Edit α}
    (h : Spells spelled edit) {text : String} {values : List α}
    (hvalues : Text.numbers? text = some values) (e : Engine α) :
    e.perform (spelled text) = e.perform (edit values) := by
  rw [perform, perform, h.result?_eq, hvalues, Option.bind_some]

theorem Spells.perform_of_none {spelled : String → Edit α} {edit : List α → Edit α}
    (h : Spells spelled edit) {text : String}
    (hnone : Text.numbers? text = (none : Option (List α))) (e : Engine α) :
    e.perform (spelled text) = (false, e) := by
  refine perform_of_result?_eq_none ?_
  rw [h.result?_eq, hnone, Option.bind_none]

/-- Unless rows are being added, dense reads and writes undo each other in every engine, the view of
a column included.  An edit that takes a text is refused if one of the tokens is no numeral;
otherwise it does what the edit does that takes the numbers which the tokens denote. -/
theorem dense_roundTrip (rows columns : ℕ) (config : Config Float) (edits : List (Edit Float))
    (hmode : ((create rows columns config).performAll edits).rowMode = false) :
    let e := (create rows columns config).performAll edits
    (∀ l : Slice, l.Inside e → e.RoundTrip l) ∧
      (∀ workspace column values, (Slice.column column).Inside e →
        Solver.editColumn ⟨e, workspace⟩ column (.dense values)
          = (.ok (e.perform (.setColumnDense column values)).1,
            ⟨(e.perform (.setColumnDense column values)).2, workspace⟩)) ∧
      ∀ spelled edit, Spells spelled edit → ∀ text,
        ((∃ w ∈ Text.tokens text, w ∉ Text.Grammar.numeral) →
          e.perform (spelled text) = (false, e)) ∧
        ((∀ w ∈ Text.tokens text, w ∈ Text.Grammar.numeral) →
          ∃ values, List.Forall₂ (fun w x => Text.value? w = some x) (Text.tokens text) values ∧
            e.perform (spelled text) = e.perform (edit values)) := by
  intro e
  have hcanonical : e.model.Canonical := canonical_create_performAll rows columns config edits
  have hzero : Scalar.isZero (0 : Float) = true := by decide
  refine ⟨fun l hl => roundTrip hcanonical hzero hmode hl, ?_, ?_⟩
  · intro workspace column values hcolumn
    have hcheck : Solver.checkColumn ⟨e, workspace⟩ column = .ok () := if_pos hcolumn
    simp only [Solver.editColumn, Solver.performIf, hcheck]
    rfl
  · intro spelled edit hspells text
    refine ⟨?_, ?_⟩
    · rintro ⟨w, hw, hnumeral⟩
      refine hspells.perform_of_none ?_ e
      rw [← Option.not_isSome_iff_eq_none, Text.isSome_numbers?]
      intro hvalues
      exact hnumeral (Text.isSome_value?.mp (hvalues w hw))
    · intro hnumerals
      obtain ⟨values, hvalues⟩ := Option.isSome_iff_exists.mp
        (Text.isSome_numbers?.mpr fun w hw => Text.isSome_value?.mpr (hnumerals w hw))
      exact ⟨values, Text.numbers?_eq_some.mp hvalues, hspells.perform_eq hvalues e⟩

/-- A row that is too long by a negative zero, and a text with a word in it that is no numeral. -/
theorem dense_roundTrip_rough :
    let e := (create 1 2 (Config.standard : Config Float)).performAll
      [.setObjectiveDense [0.5, -0.0, 0.0], .setColumnDense 2 [2.0, 0.0 / 0.0]]
    e.rowMode = false ∧ e.RoundTrip (.row 1) ∧
      (e.perform (.setRowDense 1 [-0.0, 1.5, -0.0])).2.rowValues? 1 = some [0.0, 1.5] ∧
      (e.perform (.setRowDense 1 [-0.0, 1.5, 0.5])).1 = false ∧
      e.perform (.setObjectiveText "1 0x2") = (false, e) ∧
      ∃ values : List Float, values.length = 2 ∧
        e.perform (.setObjectiveText "-inf\t+.5e1 ") = e.perform (.setObjectiveDense values) := by
  intro e
  have hmode : e.rowMode = false := by decide +kernel
  obtain ⟨hslices, -, htext⟩ := dense_roundTrip 1 2 .standard
    [.setObjectiveDense [0.5, -0.0, 0.0], .setColumnDense 2 [2.0, 0.0 / 0.0]] hmode
  have hrow : e.RoundTrip (.row 1) := hslices (.row 1) (by decide +kernel)
  refine ⟨hmode, hrow, ?_, ?_, ?_, ?_⟩
  · have haccepted : (e.perform (.setRowDense 1 [-0.0, 1.5, -0.0])).1 = true := by decide +kernel
    have hfitted : fitted 2 [-0.0, 1.5, -0.0] = [(0.0 : Float), 1.5] := by decide +kernel
    exact (hrow.reread _ haccepted).trans (congrArg some hfitted)
  · decide +kernel
  · refine (htext _ _ .setObjective "1 0x2").1 ⟨['0', 'x', '2'], by decide +kernel, ?_⟩
    rw [← Text.Grammar.isSome_ofChars?]
    decide
  · have hnumerals : ∀ w ∈ Text.tokens "-inf\t+.5e1 ", w ∈ Text.Grammar.numeral := by
      simp only [← Text.Grammar.isSome_ofChars?]
      decide +kernel
    obtain ⟨values, hvalues, hperform⟩ := (htext _ _ .setObjective "-inf\t+.5e1 ").2 hnumerals
    refine ⟨values, ?_, hperform⟩
    rw [← hvalues.length_eq]
    decide +kernel

end Engine
end LinProg
