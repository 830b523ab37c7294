/-
Sparse vectors read entry by entry.

Each operation gets one lemma that says what it does to what is read,
whatever the scalars are.  A written zero, of either sign, is not stored and
reads as the zero that stands for everything absent.  Collecting entries adds
those of one index from left to right, and then treats the sum like a
written value.
-/
import LinProg.Proofs.Model.Canonical

namespace LinProg

variable {α : Type} [Scalar α]

/-- What is read where a value was written. -/
def Scalar.written (x : α) : α := if Scalar.isZero x then 0 else x

theorem Scalar.written_zero : Scalar.written (0 : α) = 0 := by
  rw [written]
  split
  · rfl
  · rfl

theorem Scalar.written_of_nonzero {x : α} (hx : Scalar.isZero x = false) :
    Scalar.written x = x := by
  rw [written, hx]
  rfl

namespace Sparse

variable {v w : Sparse α} {i j n : ℕ} {x : α}

theorem get_eq_zero_of_within (hv : v.Within n) (hi : n ≤ i) : v.get i = 0 := by
  rw [get_eq_lookup, lookup_eq_none fun e he => ((hv e he).trans_le hi).ne]
  rfl

/-! ## Writing and deleting -/

omit [Scalar α] in
/-- What stands between the entries before and those after its index replaces what was stored
there. -/
theorem lookup_splice (hw : ∀ e ∈ w, e.1 = i) (j : ℕ) :
    (before i v ++ (w ++ after i v)).lookup j = if j = i then w.lookup i else v.lookup j := by
  rw [List.lookup_append, List.lookup_append, before, after,
    lookup_filter_index (fun k => decide (k < i)), lookup_filter_index fun k => decide (i < k)]
  rcases lt_trichotomy j i with h | rfl | h
  · have hwj : w.lookup j = none := lookup_eq_none fun e he => (hw e he).trans_ne h.ne'
    simp [h, h.ne, h.not_gt, hwj]
  · simp
  · have hwj : w.lookup j = none := lookup_eq_none fun e he => (hw e he).trans_ne h.ne
    simp [h, h.ne', h.not_gt, hwj]

theorem lookup_set (hv : v.Sorted) (i : ℕ) (x : α) (j : ℕ) :
    (v.set i x).lookup j
      = if j = i then (if Scalar.isZero x then none else some x) else v.lookup j := by
  have hentry : ∀ e ∈ entry i x, e.1 = i := fun e he => by rw [(mem_entry.mp he).2]
  rw [set_eq hv, lookup_splice hentry, entry]
  split
  · split
    · rfl
    · rw [lookup_cons, if_pos rfl]
  · rfl

theorem get_set (hv : v.Sorted) (i : ℕ) (x : α) (j : ℕ) :
    (v.set i x).get j = if j = i then Scalar.written x else v.get j := by
  rw [get_eq_lookup, lookup_set hv, get_eq_lookup, Scalar.written]
  split
  · split
    · rfl
    · rfl
  · rfl

omit [Scalar α] in
theorem lookup_delete (i : ℕ) (v : Sparse α) (j : ℕ) :
    (v.delete i).lookup j = v.lookup (if j < i then j else j + 1) := by
  induction v with
  | nil => rfl
  | cons e v ih =>
      rw [delete_eq, List.filterMap_cons, ← delete_eq, lowered?, lookup_cons]
      by_cases h : e.1 = i
      · have hplace : ¬ (if j < i then j else j + 1) = e.1 := by split <;> omega
        rw [if_pos h, if_neg hplace]
        exact ih
      · have hplace : j = (if i < e.1 then e.1 - 1 else e.1) ↔
            (if j < i then j else j + 1) = e.1 := by
          split <;> split <;> omega
        rw [if_neg h]
        simp only [lookup_cons, ih, hplace]

theorem get_delete (i : ℕ) (v : Sparse α) (j : ℕ) :
    (v.delete i).get j = v.get (if j < i then j else j + 1) := by
  rw [get_eq_lookup, lookup_delete, ← get_eq_lookup]

omit [Scalar α] in
theorem delete_zero (hv : ∀ e ∈ v, e.1 ≠ 0) : v.delete 0 = v.map fun e => (e.1 - 1, e.2) := by
  rw [delete_eq, ← List.filterMap_eq_map]
  refine List.filterMap_congr ?_
  intro e he
  rw [lowered?, if_neg (hv e he), if_pos (Nat.pos_of_ne_zero (hv e he))]
  rfl

/-! ## Collecting -/

def raised (stored : Option α) (x : α) : Option α := some (stored.elim x (· + x))

theorem lookup_add (hv : v.Sorted) (i : ℕ) (x : α) (j : ℕ) :
    (v.add i x).lookup j = if j = i then raised (v.lookup j) x else v.lookup j := by
  rw [add_eq hv, lookup_splice fun e he => by rw [List.mem_singleton.mp he], lookup_cons,
    if_pos rfl]
  split
  · rename_i h
    rw [h, raised]
  · rfl

def valuesAt (i : ℕ) (entries : List (ℕ × α)) : List α :=
  entries.filterMap fun e => if e.1 = i then some e.2 else none

omit [Scalar α] in
theorem valuesAt_cons (e : ℕ × α) (entries : List (ℕ × α)) (i : ℕ) :
    valuesAt i (e :: entries)
      = if e.1 = i then e.2 :: valuesAt i entries else valuesAt i entries := by
  by_cases h : e.1 = i
  · rw [if_pos h]
    exact List.filterMap_cons_some (if_pos h)
  · rw [if_neg h]
    exact List.filterMap_cons_none (if_neg h)

/-- The sum of values from left to right as it is read back; zero if there are none. -/
def merged : List α → α
  | [] => 0
  | x :: xs => Scalar.written (xs.foldl (· + ·) x)

theorem sorted_foldl_add {entries : List (ℕ × α)} (hv : v.Sorted) :
    (entries.foldl (fun v e => add e.1 e.2 v) v).Sorted := by
  induction entries generalizing v with
  | nil => exact hv
  | cons e entries ih => exact ih (sorted_add hv e.1 e.2)

theorem lookup_foldl_add {entries : List (ℕ × α)} (hv : v.Sorted) (j : ℕ) :
    (entries.foldl (fun v e => add e.1 e.2 v) v).lookup j
      = (valuesAt j entries).foldl raised (v.lookup j) := by
  induction entries generalizing v with
  | nil => rfl
  | cons e entries ih =>
      rw [List.foldl_cons, ih (sorted_add hv e.1 e.2), lookup_add hv, valuesAt_cons]
      by_cases h : j = e.1
      · rw [if_pos h, if_pos h.symm]
        rfl
      · rw [if_neg h, if_neg (Ne.symm h)]

/-- The sum of values from left to right, which starts from the first of them; there is none of no
values. -/
def total? : List α → Option α
  | [] => none
  | x :: xs => some (xs.foldl (· + ·) x)

theorem foldl_raised (x : α) (xs : List α) :
    xs.foldl raised (some x) = some (xs.foldl (· + ·) x) := by
  induction xs generalizing x with
  | nil => rfl
  | cons y xs ih => exact ih (x + y)

theorem foldl_raised_none (xs : List α) : xs.foldl raised none = total? xs := by
  cases xs with
  | nil => rfl
  | cons x xs => exact foldl_raised x xs

theorem sorted_collect (entries : List (ℕ × α)) : (collect entries).Sorted :=
  (sorted_foldl_add List.Pairwise.nil).filter _

theorem lookup_collect (entries : List (ℕ × α)) (j : ℕ) :
    (collect entries).lookup j
      = (total? (valuesAt j entries)).filter fun x => !Scalar.isZero x := by
  rw [collect, lookup_filter_value (sorted_foldl_add List.Pairwise.nil) (fun x => !Scalar.isZero x),
    lookup_foldl_add List.Pairwise.nil, List.lookup_nil, foldl_raised_none]

theorem get_collect (entries : List (ℕ × α)) (j : ℕ) :
    (collect entries).get j = merged (valuesAt j entries) := by
  rw [get_eq_lookup, lookup_collect]
  cases valuesAt j entries with
  | nil => rfl
  | cons x xs =>
      rw [total?, merged, Scalar.written, Option.filter_some]
      cases Scalar.isZero (xs.foldl (· + ·) x) with
      | true => rfl
      | false => rfl

/-! ## The stored form -/

theorem Canonical.get_nonzero (hv : v.Canonical n) (i : ℕ) :
    v.get i = 0 ∨ Scalar.isZero (v.get i) = false := by
  rw [get_eq_lookup]
  cases h : v.lookup i with
  | none => exact Or.inl rfl
  | some x => exact Or.inr (hv.nonzero _ (mem_of_lookup h))

theorem Canonical.written_get (hv : v.Canonical n) (i : ℕ) :
    Scalar.written (v.get i) = v.get i := by
  rcases hv.get_nonzero i with h | h
  · rw [h, Scalar.written_zero]
  · exact Scalar.written_of_nonzero h

/-- As many entries are stored as there are values other than zero. -/
theorem Canonical.length_eq_card (hv : v.Canonical n) (hzero : Scalar.isZero (0 : α) = true) :
    v.length = ((Finset.range n).filter fun i => Scalar.isZero (v.get i) = false).card := by
  have hnodup : (v.map Prod.fst).Nodup :=
    List.pairwise_map.mpr (hv.sorted.imp fun h => h.ne)
  have hindices : (Finset.range n).filter (fun i => Scalar.isZero (v.get i) = false)
      = (v.map Prod.fst).toFinset := by
    ext i
    rw [Finset.mem_filter, Finset.mem_range, List.mem_toFinset, List.mem_map]
    constructor
    · rintro ⟨-, hi⟩
      cases h : v.lookup i with
      | none =>
          rw [get_eq_lookup, h, Option.getD_none, hzero] at hi
          cases hi
      | some x => exact ⟨(i, x), mem_of_lookup h, rfl⟩
    · rintro ⟨e, he, rfl⟩
      refine ⟨hv.within e he, ?_⟩
      rw [get_eq_lookup, lookup_of_mem hv.sorted he]
      exact hv.nonzero e he
  rw [hindices, List.toFinset_card_of_nodup hnodup, List.length_map]

/-! ## Exact scalars -/

theorem written_eq (x : ℚ) : Scalar.written x = x := by
  rw [Scalar.written]
  split
  · rename_i hx
    exact ((Scalar.isZero_iff x).mp hx).symm
  · rfl

theorem merged_eq_sum (xs : List ℚ) : merged xs = xs.sum := by
  cases xs with
  | nil => rfl
  | cons x xs => rw [merged, written_eq, List.sum_eq_foldl, List.foldl_cons, zero_add]

theorem sum_valuesAt (entries : List (ℕ × ℚ)) (i : ℕ) :
    (valuesAt i entries).sum = weight entries i := by
  induction entries with
  | nil => rfl
  | cons e entries ih =>
      rw [valuesAt_cons, weight_cons, ← ih]
      split
      · exact List.sum_cons
      · exact (zero_add _).symm

theorem get_collect_eq_weight (entries : List (ℕ × ℚ)) (i : ℕ) :
    (collect entries).get i = weight entries i := by
  rw [get_collect, merged_eq_sum, sum_valuesAt]

/-- Collecting entries keeps the linear form that they are. -/
theorem dot_collect (entries : List (ℕ × ℚ)) (y : List ℚ) :
    dot (collect entries) y = dot entries y := by
  rw [dot_eq_sum le_rfl, dot_eq_sum le_rfl]
  refine Finset.sum_congr rfl ?_
  intro j _
  rw [← get_eq_weight (sorted_collect entries), get_collect_eq_weight]

end Sparse

namespace Listing

/-- What a listing says about an index: the sum from left to right of the values that its first
`count` entries list for it. -/
def total (i : ℕ) (l : Listing α) : α := Sparse.merged (Sparse.valuesAt i (l.entries 0))

variable {l : Listing α} {first last shift i : ℕ} {v : Sparse α}

omit [Scalar α] in
theorem entries_eq_map (shift : ℕ) (l : Listing α) :
    l.entries shift = (l.entries 0).map fun e => (e.1 - shift, e.2) := by
  simp only [entries, Nat.sub_zero, List.map_id']
  rw [List.zip_map_left]
  rfl

omit [Scalar α] in
theorem Valid.bounds (hl : l.Valid first last) {e : ℕ × α} (he : e ∈ l.entries 0) :
    first ≤ e.1 ∧ e.1 ≤ last := by
  have hindex := (List.of_mem_zip he).1
  rw [List.mem_map] at hindex
  obtain ⟨i, hi, hie⟩ := hindex
  exact hie ▸ hl.2.2 i hi

theorem read?_eq_some :
    l.read? first last shift = some v ↔
      l.Valid first last ∧ Sparse.collect (l.entries shift) = v := by
  rw [read?, Option.ite_none_right_eq_some, Option.some.injEq]

/-- The indices of a listing may be lowered by anything up to the first one that it may name. -/
theorem get_read? (h : l.read? first last shift = some v) (hshift : shift ≤ first) (j : ℕ) :
    v.get j = l.total (j + shift) := by
  obtain ⟨hvalid, rfl⟩ := read?_eq_some.mp h
  rw [Sparse.get_collect, total, entries_eq_map, Sparse.valuesAt, List.filterMap_map]
  congr 1
  refine List.filterMap_congr ?_
  intro e he
  have hfirst := (hvalid.bounds he).1
  have hplace : e.1 - shift = j ↔ e.1 = j + shift := by omega
  simp only [Function.comp_apply, hplace]

theorem Valid.total_eq_zero (hl : l.Valid first last) (hi : i < first ∨ last < i) :
    l.total i = 0 := by
  have hnone : Sparse.valuesAt i (l.entries 0) = [] := by
    refine List.filterMap_eq_nil_iff.mpr ?_
    intro e he
    have hbounds := hl.bounds he
    exact if_neg (by omega)
  rw [total, hnone]
  rfl

/-! ## Dense values -/

/-- What dense values, the first of which has the number `first`, say about a number. -/
def dense (first : ℕ) (values : List α) (i : ℕ) : α :=
  if first ≤ i then Scalar.written (values.getD (i - first) 0) else 0

theorem entries_ofDense (first : ℕ) (values : List α) :
    (ofDense first values).entries 0 = Sparse.ofDense first values := by
  have hzip : ∀ v : Sparse α, (v.map Prod.fst).zip (v.map Prod.snd) = v := fun v =>
    List.zip_map'.trans (List.map_id v)
  simp only [entries, ofDense, Nat.sub_zero, List.map_id']
  rw [List.take_of_length_le (List.length_map _).le, List.take_of_length_le (List.length_map _).le]
  exact hzip _

theorem valuesAt_ofDense (first : ℕ) (values : List α) (i : ℕ) :
    Sparse.valuesAt i (Sparse.ofDense first values)
      = if first ≤ i then (values[i - first]?.toList.filter fun x => !Scalar.isZero x) else [] := by
  induction values generalizing first with
  | nil => exact (ite_self _).symm
  | cons x values ih =>
      rcases lt_trichotomy i first with hi | rfl | hi
      · have hlater : Sparse.valuesAt i (Sparse.ofDense (first + 1) values) = [] := by
          rw [ih, if_neg (by omega)]
        rw [if_neg hi.not_ge, Sparse.ofDense]
        split
        · exact hlater
        · rw [Sparse.valuesAt_cons, if_neg hi.ne', hlater]
      · have hlater : Sparse.valuesAt i (Sparse.ofDense (i + 1) values) = [] := by
          rw [ih, if_neg (by omega)]
        rw [if_pos le_rfl, Nat.sub_self, Sparse.ofDense]
        split
        · rename_i hx
          simp [hlater, hx]
        · rename_i hx
          rw [Sparse.valuesAt_cons, if_pos rfl, hlater]
          simp [hx]
      · obtain ⟨k, rfl⟩ : ∃ k, i = first + 1 + k := ⟨i - (first + 1), by omega⟩
        have hplace : first + 1 + k - first = k + 1 := by omega
        have hlater : Sparse.valuesAt (first + 1 + k) (Sparse.ofDense (first + 1) values)
            = values[k]?.toList.filter fun x => !Scalar.isZero x := by
          rw [ih, if_pos (Nat.le_add_right _ _), Nat.add_sub_cancel_left]
        rw [if_pos hi.le, hplace, List.getElem?_cons_succ, ← hlater, Sparse.ofDense]
        split
        · rfl
        · rw [Sparse.valuesAt_cons, if_neg hi.ne]

theorem total_ofDense (first : ℕ) (values : List α) (i : ℕ) :
    (ofDense first values).total i = dense first values i := by
  rw [total, entries_ofDense, valuesAt_ofDense, dense]
  split
  · rw [List.getD_eq_getElem?_getD]
    cases values[i - first]? with
    | none => exact Scalar.written_zero.symm
    | some x =>
        cases hx : Scalar.isZero x with
        | true => simp [hx, Sparse.merged, Scalar.written]
        | false => simp [hx, Sparse.merged, Scalar.written]
  · rfl

end Listing
end LinProg
