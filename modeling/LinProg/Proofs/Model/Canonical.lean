/-
How models are stored.

The cost and every row list their nonzero coefficients by increasing
column, and only for columns that are there.  Every edit of a model keeps
it so, whatever the scalars are.
-/
import LinProg.Proofs.Lookup
import LinProg.Proofs.Model.Feasible
import LinProg.Listing
import LinProg.Model.Edit

namespace LinProg

variable {α : Type} [Scalar α]

/-! ## Sparse vectors -/

namespace Sparse

/-- The entries are nonzero and listed by increasing index, all of them below `n`. -/
structure Canonical (n : ℕ) (v : Sparse α) : Prop where
  sorted : v.Sorted
  within : v.Within n
  nonzero : ∀ e ∈ v, Scalar.isZero e.2 = false

variable {v : Sparse α} {n i : ℕ} {x : α}

theorem canonical_nil : Canonical n ([] : Sparse α) := ⟨List.Pairwise.nil, nofun, nofun⟩

theorem Canonical.mono {k : ℕ} (hv : v.Canonical n) (hk : n ≤ k) : v.Canonical k :=
  ⟨hv.sorted, fun e he => (hv.within e he).trans_le hk, hv.nonzero⟩

def before (i : ℕ) (v : Sparse α) : Sparse α := v.filter fun e => e.1 < i

def after (i : ℕ) (v : Sparse α) : Sparse α := v.filter fun e => i < e.1

section Places

omit [Scalar α]

variable {e : ℕ × α}

theorem before_cons_of_le (hv : Sorted (e :: v)) (hi : i ≤ e.1) : before i (e :: v) = [] := by
  refine List.filter_eq_nil_iff.mpr ?_
  intro d hd
  rw [decide_eq_true_eq, not_lt]
  rcases List.mem_cons.mp hd with rfl | hd
  · exact hi
  · exact hi.trans ((List.pairwise_cons.mp hv).1 d hd).le

theorem before_cons_of_gt (hi : e.1 < i) : before i (e :: v) = e :: before i v :=
  List.filter_cons_of_pos (by simpa using hi)

theorem after_eq_self (hv : Sorted (e :: v)) (hi : i ≤ e.1) : after i v = v := by
  refine List.filter_eq_self.mpr ?_
  intro d hd
  rw [decide_eq_true_eq]
  exact hi.trans_lt ((List.pairwise_cons.mp hv).1 d hd)

theorem after_cons_of_lt (hv : Sorted (e :: v)) (hi : i < e.1) : after i (e :: v) = e :: v := by
  rw [after, List.filter_cons_of_pos (by simpa using hi)]
  exact congrArg (e :: ·) (after_eq_self hv hi.le)

theorem after_cons_of_ge (hi : e.1 ≤ i) : after i (e :: v) = after i v :=
  List.filter_cons_of_neg (by simpa using hi)

theorem sorted_splice (hv : v.Sorted) {w : Sparse α} (hw : w.Sorted) (hi : ∀ e ∈ w, e.1 = i) :
    Sorted (before i v ++ (w ++ after i v)) := by
  have hbefore : ∀ e ∈ before i v, e.1 < i := fun e he => by
    simpa using (List.mem_filter.mp he).2
  have hafter : ∀ e ∈ after i v, i < e.1 := fun e he => by
    simpa using (List.mem_filter.mp he).2
  refine List.pairwise_append.mpr ⟨hv.filter _, List.pairwise_append.mpr
    ⟨hw, hv.filter _, ?_⟩, ?_⟩
  · intro d hd e he
    rw [hi d hd]
    exact hafter e he
  · intro d hd e he
    rcases List.mem_append.mp he with he | he
    · rw [hi e he]
      exact hbefore d hd
    · exact (hbefore d hd).trans (hafter e he)

end Places

def entry (i : ℕ) (x : α) : Sparse α := if Scalar.isZero x then [] else [(i, x)]

theorem mem_entry {e : ℕ × α} : e ∈ entry i x ↔ Scalar.isZero x = false ∧ e = (i, x) := by
  rw [entry]
  cases Scalar.isZero x with
  | true => simp
  | false => simp

theorem sorted_entry : Sorted (entry i x) := by
  rw [entry]
  split
  · exact List.Pairwise.nil
  · exact List.pairwise_singleton _ _

theorem set_eq (hv : v.Sorted) (i : ℕ) (x : α) :
    v.set i x = before i v ++ (entry i x ++ after i v) := by
  induction v with
  | nil => exact (List.append_nil _).symm
  | cons e v ih =>
      rw [set, entry]
      rcases lt_trichotomy i e.1 with h | h | h
      · rw [before_cons_of_le hv h.le, after_cons_of_lt hv h, if_pos h]
        split
        · rfl
        · rfl
      · rw [before_cons_of_le hv h.le, after_cons_of_ge h.ge, after_eq_self hv h.le,
          if_neg h.not_lt, if_pos h]
        split
        · rfl
        · rfl
      · rw [before_cons_of_gt h, after_cons_of_ge h.le, if_neg h.not_gt, if_neg h.ne',
          ih (List.pairwise_cons.mp hv).2, List.cons_append, entry]

theorem sorted_set (hv : v.Sorted) (i : ℕ) (x : α) : (v.set i x).Sorted := by
  rw [set_eq hv]
  exact sorted_splice hv sorted_entry fun e he => by rw [(mem_entry.mp he).2]

theorem mem_of_mem_set (hv : v.Sorted) {e : ℕ × α} (he : e ∈ v.set i x) :
    e ∈ v ∨ (Scalar.isZero x = false ∧ e = (i, x)) := by
  rw [set_eq hv, List.mem_append, List.mem_append] at he
  rcases he with he | he | he
  · exact Or.inl (List.mem_of_mem_filter he)
  · exact Or.inr (mem_entry.mp he)
  · exact Or.inl (List.mem_of_mem_filter he)

theorem nonzero_set (hs : v.Sorted) (hv : ∀ e ∈ v, Scalar.isZero e.2 = false) :
    ∀ e ∈ v.set i x, Scalar.isZero e.2 = false := by
  intro e he
  rcases mem_of_mem_set hs he with he | ⟨hx, rfl⟩
  · exact hv e he
  · exact hx

theorem Canonical.set (hv : v.Canonical n) (hi : i < n) (x : α) : (v.set i x).Canonical n := by
  refine ⟨sorted_set hv.sorted i x, ?_, nonzero_set hv.sorted hv.nonzero⟩
  intro e he
  rcases mem_of_mem_set hv.sorted he with he | ⟨-, rfl⟩
  · exact hv.within e he
  · exact hi

theorem add_eq (hv : v.Sorted) (i : ℕ) (x : α) :
    v.add i x = before i v ++ ([(i, (v.lookup i).elim x (· + x))] ++ after i v) := by
  induction v with
  | nil => rfl
  | cons e v ih =>
      obtain ⟨he, hv'⟩ := List.pairwise_cons.mp hv
      rw [add, lookup_cons]
      rcases lt_trichotomy i e.1 with h | h | h
      · have hrest : v.lookup i = none := lookup_eq_none fun d hd => (h.trans (he d hd)).ne'
        rw [before_cons_of_le hv h.le, after_cons_of_lt hv h, if_pos h, if_neg h.ne, hrest]
        rfl
      · rw [before_cons_of_le hv h.le, after_cons_of_ge h.ge, after_eq_self hv h.le,
          if_neg h.not_lt, if_pos h, if_pos h]
        rfl
      · rw [before_cons_of_gt h, after_cons_of_ge h.le, if_neg h.not_gt, if_neg h.ne',
          if_neg h.ne', ih hv']
        rfl

theorem sorted_add (hv : v.Sorted) (i : ℕ) (x : α) : (v.add i x).Sorted := by
  rw [add_eq hv]
  refine sorted_splice hv (List.pairwise_singleton _ _) ?_
  intro e he
  rw [List.mem_singleton.mp he]

theorem within_add (hs : v.Sorted) (hw : v.Within n) (hi : i < n) (x : α) :
    (v.add i x).Within n := by
  rw [add_eq hs]
  intro e he
  rcases List.mem_append.mp he with he | he
  · exact hw e (List.mem_of_mem_filter he)
  · rcases List.mem_cons.mp he with rfl | he
    · exact hi
    · exact hw e (List.mem_of_mem_filter he)

/-- Entries in any order and number are collected into the stored form. -/
theorem canonical_collect {entries : List (ℕ × α)} (h : ∀ e ∈ entries, e.1 < n) :
    (collect entries).Canonical n := by
  have hfold : ∀ v : Sparse α, v.Sorted → v.Within n →
      (entries.foldl (fun v e => add e.1 e.2 v) v).Sorted ∧
        Within n (entries.foldl (fun v e => add e.1 e.2 v) v) := by
    induction entries with
    | nil => exact fun v hs hw => ⟨hs, hw⟩
    | cons e entries ih =>
        intro v hs hw
        exact ih (fun e he => h e (List.mem_cons_of_mem _ he)) _ (sorted_add hs e.1 e.2)
          (within_add hs hw (h e List.mem_cons_self) e.2)
  obtain ⟨hs, hw⟩ := hfold [] List.Pairwise.nil nofun
  refine ⟨hs.filter _, fun e he => hw e (List.mem_of_mem_filter he), fun e he => ?_⟩
  simpa using (List.mem_filter.mp he).2

/-- Where an entry goes when an index is deleted. -/
def lowered? (i : ℕ) (e : ℕ × α) : Option (ℕ × α) :=
  if e.1 = i then none else some (if i < e.1 then e.1 - 1 else e.1, e.2)

omit [Scalar α] in
theorem delete_eq (i : ℕ) (v : Sparse α) : v.delete i = v.filterMap (lowered? i) := rfl

omit [Scalar α] in
theorem lowered?_eq_some {e d : ℕ × α} (h : lowered? i e = some d) :
    d.2 = e.2 ∧ ((e.1 < i ∧ d.1 = e.1) ∨ (i < e.1 ∧ d.1 = e.1 - 1)) := by
  rw [lowered?] at h
  split at h
  · cases h
  · rename_i hne
    obtain rfl := Option.some.inj h
    refine ⟨rfl, ?_⟩
    rcases lt_or_gt_of_ne hne with hlt | hgt
    · exact Or.inl ⟨hlt, if_neg hlt.not_gt⟩
    · exact Or.inr ⟨hgt, if_pos hgt⟩

theorem Canonical.delete (hv : v.Canonical n) (hi : i < n) : (v.delete i).Canonical (n - 1) := by
  rw [delete_eq]
  refine ⟨?_, ?_, ?_⟩
  · refine List.Pairwise.filterMap _ (fun e e' hlt d hd d' hd' => ?_) hv.sorted
    obtain ⟨-, h⟩ := lowered?_eq_some hd
    obtain ⟨-, h'⟩ := lowered?_eq_some hd'
    omega
  · intro d hd
    obtain ⟨e, he, hed⟩ := List.mem_filterMap.mp hd
    obtain ⟨-, h⟩ := lowered?_eq_some hed
    have hen := hv.within e he
    omega
  · intro d hd
    obtain ⟨e, he, hed⟩ := List.mem_filterMap.mp hd
    rw [(lowered?_eq_some hed).1]
    exact hv.nonzero e he

end Sparse

namespace Listing

/-- What is read from a listing is in the stored form. -/
theorem canonical_read? {l : Listing α} {first last shift n : ℕ} {v : Sparse α}
    (h : l.read? first last shift = some v) (hn : ∀ i, first ≤ i → i ≤ last → i - shift < n) :
    v.Canonical n := by
  obtain ⟨⟨-, -, hvalid⟩, rfl⟩ := Option.ite_none_right_eq_some.mp h |>.imp_right Option.some.inj
  refine Sparse.canonical_collect ?_
  intro e he
  obtain ⟨i, hi, hie⟩ := List.mem_map.mp (List.of_mem_zip he).1
  obtain ⟨hfirst, hlast⟩ := hvalid i hi
  exact hie ▸ hn i hfirst hlast

end Listing

/-! ## Models -/

namespace Model

variable {m m' : Model α} {i j : ℕ}

omit [Scalar α] in
theorem of_modifyRow? {f : Row α → Row α} (h : m.modifyRow? i f = some m') :
    i < m.nrRows ∧ m' = { m with rows := m.rows.modify i f } :=
  (Option.ite_none_right_eq_some.mp h).imp_right fun h => (Option.some.inj h).symm

omit [Scalar α] in
theorem of_modifyColumn? {f : Column α → Column α} (h : m.modifyColumn? j f = some m') :
    j < m.nrColumns ∧ m' = { m with columns := m.columns.modify j f } :=
  (Option.ite_none_right_eq_some.mp h).imp_right fun h => (Option.some.inj h).symm

theorem of_pushColumn? {cost : α} {values : Sparse α} {c : Column α}
    (h : m.pushColumn? cost values c = some m') :
    values.Within m.nrRows ∧
      m' = { m with
        columns := m.columns ++ [c]
        cost := m.cost.set m.nrColumns cost
        rows := scatter m.nrColumns values m.rows } :=
  (Option.ite_none_right_eq_some.mp h).imp_right fun h => (Option.some.inj h).symm

/-- The cost and all rows are in the stored form. -/
structure Canonical (m : Model α) : Prop where
  cost : m.cost.Canonical m.nrColumns
  rows : ∀ r ∈ m.rows, r.coefficients.Canonical m.nrColumns

theorem canonical_of_nrColumns {n : ℕ} (hn : m.nrColumns = n) (hcost : m.cost.Canonical n)
    (hrows : ∀ r ∈ m.rows, r.coefficients.Canonical n) : m.Canonical := by
  subst hn
  exact ⟨hcost, hrows⟩

theorem Canonical.closed (hm : m.Canonical) : m.Closed :=
  ⟨hm.cost.within, fun r hr => (hm.rows r hr).within⟩

theorem Canonical.listed (hm : m.Canonical) : m.Sorted :=
  ⟨hm.cost.sorted, fun r hr => (hm.rows r hr).sorted⟩

theorem canonical_blank (rows columns : ℕ) (infinity : α) :
    (blank rows columns infinity).Canonical where
  cost := Sparse.canonical_nil
  rows r hr := by
    rw [List.eq_of_mem_replicate hr]
    exact Sparse.canonical_nil

theorem Canonical.modifyRow (hm : m.Canonical) (i : ℕ) {f : Row α → Row α}
    (hf : ∀ r : Row α, r.coefficients.Canonical m.nrColumns →
      (f r).coefficients.Canonical m.nrColumns) :
    Canonical { m with rows := m.rows.modify i f } := by
  refine ⟨hm.cost, fun r hr => ?_⟩
  obtain ⟨k, hk, rfl⟩ := List.mem_iff_getElem.mp hr
  rw [List.getElem_modify]
  split
  · exact hf _ (hm.rows _ (List.getElem_mem _))
  · exact hm.rows _ (List.getElem_mem _)

theorem Canonical.of_coefficients_eq (hm : m.Canonical) {rows : List (Row α)}
    (h : rows.map Row.coefficients = m.rows.map Row.coefficients) : Canonical { m with rows } := by
  refine ⟨hm.cost, fun r hr => ?_⟩
  have hmem : r.coefficients ∈ m.rows.map Row.coefficients := h ▸ List.mem_map_of_mem hr
  obtain ⟨q, hq, hcoefficients⟩ := List.mem_map.mp hmem
  rw [← hcoefficients]
  exact hm.rows q hq

theorem Canonical.of_length_eq (hm : m.Canonical) {columns : List (Column α)}
    (h : columns.length = m.columns.length) : Canonical { m with columns } :=
  canonical_of_nrColumns h hm.cost hm.rows

theorem Canonical.modifyColumn (hm : m.Canonical) (j : ℕ) (f : Column α → Column α) :
    Canonical { m with columns := m.columns.modify j f } :=
  hm.of_length_eq (List.length_modify _ _ _)

theorem Canonical.pushRow (hm : m.Canonical) {r : Row α}
    (hr : r.coefficients.Canonical m.nrColumns) : (m.pushRow r).Canonical where
  cost := hm.cost
  rows q hq := by
    rcases List.mem_append.mp hq with hq | hq
    · exact hm.rows q hq
    · rw [List.mem_singleton.mp hq]
      exact hr

theorem Canonical.deleteRow (hm : m.Canonical) (i : ℕ) : (m.deleteRow i).Canonical :=
  ⟨hm.cost, fun r hr => hm.rows r (List.mem_of_mem_eraseIdx hr)⟩

theorem Canonical.setElement? (hm : m.Canonical) {x : α} (hj : j < m.nrColumns)
    (h : m.setElement? i j x = some m') : m'.Canonical := by
  cases i with
  | zero =>
      obtain rfl := Option.some.inj h
      exact ⟨hm.cost.set hj x, hm.rows⟩
  | succ i =>
      obtain ⟨-, rfl⟩ := of_modifyRow? h
      exact hm.modifyRow i fun r hr => hr.set hj x

theorem canonical_scatter {n : ℕ} (hj : j < n) (values : Sparse α) {rows : List (Row α)}
    (h : ∀ r ∈ rows, r.coefficients.Canonical n) :
    ∀ r ∈ scatter j values rows, r.coefficients.Canonical n := by
  induction values generalizing rows with
  | nil => exact h
  | cons e values ih =>
      refine ih ?_
      intro r hr
      obtain ⟨k, hk, rfl⟩ := List.mem_iff_getElem.mp hr
      simp only [List.getElem_modify]
      split
      · exact (h _ (List.getElem_mem _)).set hj e.2
      · exact h _ (List.getElem_mem _)

theorem Canonical.pushColumn (hm : m.Canonical) (cost : α) (values : Sparse α) (c : Column α) :
    Canonical { m with
      columns := m.columns ++ [c]
      cost := m.cost.set m.nrColumns cost
      rows := scatter m.nrColumns values m.rows } := by
  refine canonical_of_nrColumns List.length_append ?_ ?_
  · exact (hm.cost.mono (Nat.le_succ _)).set (Nat.lt_succ_self _) cost
  · exact canonical_scatter (Nat.lt_succ_self _) values fun r hr =>
      (hm.rows r hr).mono (Nat.le_succ _)

theorem canonical_spread {n : ℕ} (hj : j < n) (i : ℕ) (values : Sparse α) {rows : List (Row α)}
    (h : ∀ r ∈ rows, r.coefficients.Canonical n) :
    ∀ r ∈ spread j i values rows, r.coefficients.Canonical n := by
  induction rows generalizing i values with
  | nil =>
      intro r hr
      cases hr
  | cons q rows ih =>
      have hput : ∀ x : α, (Row.put j x q).coefficients.Canonical n := fun x =>
        (h q List.mem_cons_self).set hj x
      have hrest := fun r hr => h r (List.mem_cons_of_mem _ hr)
      have hcons : ∀ (x : α) (rest : Sparse α),
          ∀ r ∈ Row.put j x q :: spread j (i + 1) rest rows, r.coefficients.Canonical n := by
        intro x rest r hr
        rcases List.mem_cons.mp hr with rfl | hr
        · exact hput x
        · exact ih (i + 1) rest hrest r hr
      cases values with
      | nil => exact hcons 0 []
      | cons e values =>
          rw [spread]
          split
          · exact hcons e.2 values
          · exact hcons 0 (e :: values)

theorem Canonical.setColumn (hm : m.Canonical) (hj : j < m.nrColumns) (cost : α)
    (values : Sparse α) : (m.setColumn j cost values).Canonical :=
  ⟨hm.cost.set hj cost, canonical_spread hj 0 values hm.rows⟩

theorem Canonical.deleteColumn (hm : m.Canonical) (hj : j < m.nrColumns) :
    (m.deleteColumn j).Canonical := by
  refine canonical_of_nrColumns (List.length_eraseIdx_of_lt hj) (hm.cost.delete hj) ?_
  intro r hr
  obtain ⟨q, hq, rfl⟩ := List.mem_map.mp hr
  exact (hm.rows q hq).delete hj

end Model
end LinProg
