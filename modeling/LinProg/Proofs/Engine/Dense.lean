/-
Which dense vectors an engine takes.

A dense vector is handed over as the listing of its nonzero values, so its
length is not looked at: it may be too short, and it may be too long by zeros.
What decides is whether a value that is not zero, of either sign, stands past
the last column or row.
-/
import LinProg.Proofs.Engine.Sheet

namespace LinProg

variable {α : Type} [Scalar α]

/-! ## Dense values as listings -/

omit [Scalar α] in
theorem Sparse.mem_valuesAt {entries : List (ℕ × α)} {i : ℕ} {x : α} :
    x ∈ valuesAt i entries ↔ (i, x) ∈ entries := by
  simp only [valuesAt, List.mem_filterMap, Option.ite_none_right_eq_some, Option.some.injEq]
  constructor
  · rintro ⟨e, he, rfl, rfl⟩
    exact he
  · intro h
    exact ⟨_, h, rfl, rfl⟩

theorem Sparse.mem_ofDense {first i : ℕ} {x : α} {values : List α} :
    (i, x) ∈ ofDense first values
      ↔ first ≤ i ∧ values[i - first]? = some x ∧ Scalar.isZero x = false := by
  rw [← mem_valuesAt, Listing.valuesAt_ofDense]
  split
  · rename_i hle
    simp [hle]
  · rename_i hlt
    simp [hlt]

theorem Scalar.written_getD_range (f : ℕ → α) (n i : ℕ) :
    written (((List.range n).map f).getD i 0) = if i < n then written (f i) else 0 := by
  rw [List.getD_eq_getElem?_getD, List.getElem?_map]
  split
  · rename_i hi
    rw [List.getElem?_range hi]
    rfl
  · rename_i hi
    rw [List.getElem?_eq_none (by simpa using hi)]
    exact written_zero

/-- Whether all dense values past a number of them are zero, of either sign. -/
def Fits (n : ℕ) (values : List α) : Prop := ∀ x ∈ values.drop n, Scalar.isZero x = true

instance (n : ℕ) (values : List α) : Decidable (Fits n values) :=
  inferInstanceAs (Decidable (∀ x ∈ values.drop n, Scalar.isZero x = true))

theorem fits_of_length_le {n : ℕ} {values : List α} (h : values.length ≤ n) : Fits n values := by
  intro x hx
  rw [List.drop_eq_nil_of_le h] at hx
  cases hx

/-- The listing of dense values names an index past the last one where a value that is not zero
stands past the last place. -/
theorem Listing.valid_ofDense {first last : ℕ} {values : List α} :
    (ofDense first values).Valid first last ↔ Fits (last + 1 - first) values := by
  have hindices : (ofDense first values).Valid first last ↔
      ∀ e ∈ Sparse.ofDense first values, first ≤ e.1 ∧ e.1 ≤ last := by
    have htake : (ofDense first values).indices.take (ofDense first values).count
        = (Sparse.ofDense first values).map Prod.fst :=
      List.take_of_length_le (List.length_map Prod.fst).le
    rw [Valid, htake, List.forall_mem_map]
    simp [ofDense]
  rw [hindices]
  constructor
  · intro h x hx
    obtain ⟨k, hk⟩ := List.getElem?_of_mem hx
    rw [List.getElem?_drop] at hk
    by_contra hnonzero
    have hmem : (first + (last + 1 - first + k), x) ∈ Sparse.ofDense first values := by
      rw [Sparse.mem_ofDense, Nat.add_sub_cancel_left]
      exact ⟨Nat.le_add_right _ _, hk, Bool.eq_false_of_not_eq_true hnonzero⟩
    have hlast := (h _ hmem).2
    omega
  · rintro h ⟨i, x⟩ he
    obtain ⟨hfirst, hx, hnonzero⟩ := Sparse.mem_ofDense.mp he
    refine ⟨hfirst, ?_⟩
    by_contra hpast
    have hmem : x ∈ values.drop (last + 1 - first) := by
      refine List.mem_of_getElem? (i := i - first - (last + 1 - first)) ?_
      rw [List.getElem?_drop, ← hx]
      congr 1
      omega
    rw [h x hmem] at hnonzero
    cases hnonzero

namespace Engine

variable {e : Engine α} {values : List α}

theorem isSome_readRow?_ofDense :
    (e.readRow? (Listing.ofDense 1 values)).isSome ↔ Fits e.nrColumns values := by
  rw [readRow?, Listing.read?, Option.isSome_ite, Listing.valid_ofDense, Nat.add_sub_cancel]

theorem isSome_readColumn?_ofDense :
    (e.readColumn? (Listing.ofDense 0 values)).isSome ↔ Fits (1 + e.nrRows) values := by
  rw [readColumn?, Option.isSome_map, Listing.read?, Option.isSome_ite, Listing.valid_ofDense,
    Nat.sub_zero, Nat.add_comm]

/-! ## The edits -/

theorem isSome_appendConstraintDense? (relation : Relation) (b : α) :
    (e.appendConstraintDense? values relation b).isSome ↔ Fits e.nrColumns values := by
  rw [← isSome_readRow?_ofDense, appendConstraintDense?, appendConstraint?]
  cases e.readRow? (Listing.ofDense 1 values) with
  | none => exact Iff.rfl
  | some v => exact Iff.rfl

theorem isSome_setObjectiveDense? :
    (e.setObjectiveDense? values).isSome ↔ Fits e.nrColumns values := by
  rw [← isSome_readRow?_ofDense, setObjectiveDense?, setObjective?]
  cases e.readRow? (Listing.ofDense 1 values) with
  | none => exact Iff.rfl
  | some v => exact Iff.rfl

theorem isSome_setRowDense? (hmode : e.rowMode = false) {i : ℕ} (hi : i < e.nrRows) :
    (e.setRowDense? (i + 1) values).isSome ↔ Fits e.nrColumns values := by
  have hindex : e.rowIndex? (i + 1) = some i := rowIndex?_eq_some.mpr ⟨rfl, hi⟩
  have hmodify : ∀ f, e.model.modifyRow? i f
      = some { e.model with rows := e.model.rows.modify i f } := fun f => if_pos hi
  rw [← isSome_readRow?_ofDense, setRowDense?, setRow?, hmode, hindex]
  cases e.readRow? (Listing.ofDense 1 values) with
  | none => exact Iff.rfl
  | some v => simp [hmodify]

theorem isSome_appendColumnDense? (hmode : e.rowMode = false) :
    (e.appendColumnDense? values).isSome ↔ Fits (1 + e.nrRows) values := by
  rw [← isSome_readColumn?_ofDense, appendColumnDense?, appendColumn?, hmode]
  cases hread : e.readColumn? (Listing.ofDense 0 values) with
  | none => exact Iff.rfl
  | some p =>
      obtain ⟨cost, column⟩ := p
      have hpush : ∀ c, (e.model.pushColumn? cost column c).isSome := by
        intro c
        rw [Model.pushColumn?, Option.isSome_ite]
        exact (of_readColumn? hread).1.within
      obtain ⟨m, hm⟩ := Option.isSome_iff_exists.mp
        (hpush (Column.nonnegative e.config.infinity))
      simp [hm]

theorem isSome_setColumnDense? (hmode : e.rowMode = false) {j : ℕ} (hj : j < e.nrColumns) :
    (e.setColumnDense? (j + 1) values).isSome ↔ Fits (1 + e.nrRows) values := by
  have hindex : e.columnIndex? (j + 1) = some j := columnIndex?_eq_some.mpr ⟨rfl, hj⟩
  rw [← isSome_readColumn?_ofDense, setColumnDense?, setColumn?, hmode, hindex]
  cases e.readColumn? (Listing.ofDense 0 values) with
  | none => exact Iff.rfl
  | some p => exact Iff.rfl

end Engine
end LinProg
