/-
Single entries written and read, as in an array.

Entries stand in increasing order of index, and a zero is not stored.  A write
finds the entry of its index there or not, and writes a zero or not; in each of
the four cases it changes what is stored for this index only.  Since a vector in
increasing order is determined by what is stored for each index, laws of writes
are compared index by index.

A sorted vector can be searched by halving: an entry in the middle tells on which
side of it an index has to be looked for.  After every write this still ends at
the place of the index.
-/
import LinProg.Proofs.Access.Sparse
import LinProg.Proofs.Model.Determined

namespace LinProg
namespace Sparse

variable {α : Type}

/-! ## Search by halving -/

/-- The first place whose index is not below `i`, when that is looked for from `low` on and not
past `high`. -/
def halve (i : ℕ) (v : Sparse α) (low high : ℕ) : ℕ :=
  if low < high then
    let middle := (low + high) / 2
    if v[middle]?.any fun e => e.1 < i then halve i v (middle + 1) high else halve i v low middle
  else low
termination_by high - low

def bisect (i : ℕ) (v : Sparse α) : Search :=
  let place := halve i v 0 v.length
  if v[place]?.any fun e => e.1 = i then .found place else .missing place

variable {v : Sparse α} {i : ℕ}

/-- The entries with an index below `i` are those before the first one that has not. -/
theorem any_below_iff (hv : v.Sorted) {k : ℕ} (hk : k < v.length) :
    (v[k]?.any fun e => e.1 < i) = true ↔ k < v.findIdx fun e => i ≤ e.1 := by
  rw [List.getElem?_eq_getElem hk, Option.any_some, decide_eq_true_eq]
  constructor
  · intro hlt
    refine List.lt_findIdx_of_not hk ?_
    intro j hj
    rw [decide_eq_true_eq, not_le]
    rcases hj.lt_or_eq with hj | rfl
    · exact (List.pairwise_iff_getElem.mp hv j k _ hk hj).trans hlt
    · exact hlt
  · intro hlt
    simpa using List.not_of_lt_findIdx hlt

/-- Halving an interval around the place that is looked for ends there. -/
theorem halve_eq (hv : v.Sorted) {low high : ℕ} (hlow : low ≤ v.findIdx fun e => i ≤ e.1)
    (hhigh : v.findIdx (fun e => i ≤ e.1) ≤ high) (hlength : high ≤ v.length) :
    halve i v low high = v.findIdx fun e => i ≤ e.1 := by
  fun_induction halve i v low high with
  | case1 low high hlt middle hbelow ih =>
      have hmiddle : middle < v.length := by omega
      exact ih ((any_below_iff hv hmiddle).mp hbelow) hhigh hlength
  | case2 low high hlt middle hbelow ih =>
      have hmiddle : middle < v.length := by omega
      rw [any_below_iff hv hmiddle, not_lt] at hbelow
      exact ih hlow hbelow hmiddle.le
  | case3 low high hlt => omega

theorem bisect_eq_search (hv : v.Sorted) (i : ℕ) : v.bisect i = v.search i := by
  rw [bisect, search, halve_eq hv (Nat.zero_le _) List.findIdx_le_length le_rfl]

/-! ## Laws of single writes -/

variable [Scalar α]

theorem set_set (hv : v.Sorted) (i : ℕ) (x y : α) : (v.set i x).set i y = v.set i y := by
  have hx : (v.set i x).Sorted := sorted_set hv i x
  refine (sorted_set hx i y).ext (sorted_set hv i y) ?_
  intro k
  rw [lookup_set hx, lookup_set hv, lookup_set hv]
  split
  · rfl
  · rfl

theorem set_comm (hv : v.Sorted) {i j : ℕ} (hij : j ≠ i) (x y : α) :
    (v.set i x).set j y = (v.set j y).set i x := by
  have hx : (v.set i x).Sorted := sorted_set hv i x
  have hy : (v.set j y).Sorted := sorted_set hv j y
  refine (sorted_set hx j y).ext (sorted_set hy i x) ?_
  intro k
  rw [lookup_set hx, lookup_set hv, lookup_set hy, lookup_set hv]
  by_cases hk : k = j
  · rw [if_pos hk, if_pos hk, if_neg (hk.trans_ne hij)]
  · rw [if_neg hk, if_neg hk]

/-- A vector in increasing order without zeros is written and read like an array in which all other
values are zero.  It stays such a vector; what was written is read back, with `0` for a zero of
either sign, and nothing else is changed; a second write to an index replaces the first one, and
writes to different indices may change places.  Both operations are what a search for the index
comes to, which may be done by halving before and after the write. -/
theorem set_like_array {v : Sparse α} (hs : v.Sorted) (hv : ∀ e ∈ v, Scalar.isZero e.2 = false)
    (i j : ℕ) (x y : α) :
    ((v.set i x).Sorted ∧ ∀ e ∈ v.set i x, Scalar.isZero e.2 = false) ∧
      (v.set i x).get i = (if Scalar.isZero x then 0 else x) ∧
      (j ≠ i → (v.set i x).get j = v.get j) ∧
      (v.set i x).set i y = v.set i y ∧
      (j ≠ i → (v.set i x).set j y = (v.set j y).set i x) ∧
      v.getM j = .ok (v.get j) ∧ v.setM i x = .ok (v.set i x) ∧
      v.bisect i = v.search i ∧ (v.set i x).bisect j = (v.set i x).search j := by
  have hx : (v.set i x).Sorted := sorted_set hs i x
  refine ⟨⟨hx, nonzero_set hs hv⟩, ?_, ?_, set_set hs i x y, fun hij => set_comm hs hij x y,
    getM_eq hs j, setM_eq hs i x, bisect_eq_search hs i, bisect_eq_search hx j⟩
  · rw [get_set hs, if_pos rfl]
    rfl
  · intro hij
    rw [get_set hs, if_neg hij]

/-- Writing a negative zero takes an entry out, and a positive one is read back. -/
theorem set_like_array_signed :
    let v : Sparse Float := [(1, 2), (4, 0.5), (7, -1)]
    v.Sorted ∧ (∀ e ∈ v, Scalar.isZero e.2 = false) ∧ v.set 4 (-0.0) = [(1, 2), (7, -1)] ∧
      ((v.set 4 (-0.0)).get 4).toBits = 0 ∧ (v.set 4 (-0.0)).get 7 = v.get 7 ∧
      (v.set 4 (-0.0)).set 5 3 = (v.set 5 3).set 4 (-0.0) := by
  intro v
  have hs : v.Sorted := by simp [Sorted, v]
  have hv : ∀ e ∈ v, Scalar.isZero e.2 = false := by decide +kernel
  obtain ⟨-, hwritten, hkept, -, -⟩ := set_like_array hs hv 4 7 (-0.0) 3
  obtain ⟨-, -, -, -, hcomm, -⟩ := set_like_array hs hv 4 5 (-0.0) 3
  refine ⟨hs, hv, by decide +kernel, ?_, hkept (by decide), hcomm (by decide)⟩
  rw [hwritten]
  decide +kernel

end Sparse
end LinProg
