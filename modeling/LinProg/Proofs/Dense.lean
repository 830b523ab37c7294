/-
Exact scalars and dense vectors.

On `ℚ` the operations of a scalar are those of the ordered field, and a
list is read as a vector that is zero past its end: `xs.getD j 0`.  Each
list operation of the simplex method gets one lemma that says what it does
to this reading, so that nobody has to look at the lists again.
-/
import Mathlib
import LinProg.Sparse

namespace LinProg

/-! ## Exact scalars -/

namespace Scalar

@[simp] theorem isZero_iff (x : ℚ) : isZero x = true ↔ x = 0 := by
  simp [isZero]

@[simp] theorem abs_eq (x : ℚ) : Scalar.abs x = |x| := by
  show (if x < 0 then -x else x) = |x|
  split_ifs with h
  · exact (abs_of_neg h).symm
  · exact (abs_of_nonneg (not_lt.mp h)).symm

@[simp] theorem sum_eq (xs : List ℚ) : Scalar.sum xs = xs.sum := by
  simp [Scalar.sum, List.sum_eq_foldl]

@[simp] theorem isFinite_eq (x : ℚ) : Scalar.isFinite x = true := rfl

theorem order_eq (x y : ℚ) :
    Scalar.order x y = if x < y then .lt else if y < x then .gt else .eq := rfl

theorem isInfinite_iff {infinity x : ℚ} :
    isInfinite infinity x = true ↔ infinity ≤ |x| := by
  simp [isInfinite]

theorem not_isInfinite_iff {infinity x : ℚ} :
    isInfinite infinity x = false ↔ -infinity < x ∧ x < infinity := by
  rw [← Bool.not_eq_true, isInfinite_iff, not_le, abs_lt]

end Scalar

/-! ## Dense vectors -/

namespace Dense

def dot {α : Type} [Scalar α] (xs ys : List α) : α := Scalar.sum (List.zipWith (· * ·) xs ys)

theorem getD_eq_zero {xs : List ℚ} {j : ℕ} (h : xs.length ≤ j) : xs.getD j 0 = 0 := by
  simp [h]

theorem lt_length_of_getD_ne_zero {xs : List ℚ} {j : ℕ} (h : xs.getD j 0 ≠ 0) :
    j < xs.length := by
  by_contra hj
  exact h (getD_eq_zero (not_lt.mp hj))

theorem getD_nonneg {xs : List ℚ} (h : ∀ x ∈ xs, 0 ≤ x) (j : ℕ) : 0 ≤ xs.getD j 0 := by
  rcases lt_or_ge j xs.length with hj | hj
  · rw [List.getD_eq_getElem _ _ hj]
    exact h _ (List.getElem_mem hj)
  · exact (getD_eq_zero hj).ge

theorem getD_set {α : Type} {xs : List α} {d x : α} {k : ℕ} (hk : k < xs.length) (j : ℕ) :
    (xs.set k x).getD j d = if k = j then x else xs.getD j d := by
  by_cases h : k = j
  · subst h
    simp [hk]
  · simp [List.getD_eq_getElem?_getD, h]

theorem getD_zipWith {f : ℚ → ℚ → ℚ} (hf : f 0 0 = 0) {xs ys : List ℚ}
    (h : xs.length = ys.length) (j : ℕ) :
    (List.zipWith f xs ys).getD j 0 = f (xs.getD j 0) (ys.getD j 0) := by
  rcases lt_or_ge j xs.length with hj | hj
  · simp [List.getD_eq_getElem?_getD, hj, h ▸ hj]
  · simp [List.getD_eq_getElem?_getD, hj, h ▸ hj, hf]

theorem getD_modify_add {xs : List ℚ} {j : ℕ} (hj : j < xs.length) (k : ℕ) (v : ℚ) :
    (xs.modify k (· + v)).getD j 0 = xs.getD j 0 + if k = j then v else 0 := by
  by_cases h : k = j
  · subst h
    simp [List.getD_eq_getElem?_getD, hj]
  · simp [List.getD_eq_getElem?_getD, h]

theorem getD_append_singleton {xs : List ℚ} (v : ℚ) (j : ℕ) :
    (xs ++ [v]).getD j 0 = if j = xs.length then v else xs.getD j 0 := by
  rcases lt_trichotomy j xs.length with h | h | h
  · rw [List.getD_append _ _ _ _ h, if_neg h.ne]
  · simp [h]
  · have hlen : (xs ++ [v]).length ≤ j := by simpa using h
    rw [getD_eq_zero hlen, getD_eq_zero h.le, if_neg h.ne']

theorem getD_append_zeros (xs : List ℚ) (k j : ℕ) :
    (xs ++ List.replicate k 0).getD j 0 = xs.getD j 0 := by
  rcases lt_or_ge j xs.length with h | h
  · exact List.getD_append _ _ _ _ h
  · rw [List.getD_append_right _ _ _ _ h, getD_eq_zero h]
    simp [List.getD_eq_getElem?_getD, List.getElem?_replicate]
    split <;> rfl

theorem ext_getD {xs ys : List ℚ} (hlen : xs.length = ys.length)
    (h : ∀ j < xs.length, xs.getD j 0 = ys.getD j 0) : xs = ys := by
  refine List.ext_getElem hlen ?_
  intro j hx hy
  rw [← List.getD_eq_getElem xs 0 hx, ← List.getD_eq_getElem ys 0 hy]
  exact h j hx

theorem getD_map_range (z : ℕ → ℚ) {n j : ℕ} (hj : j < n) :
    ((List.range n).map z).getD j 0 = z j := by
  simp [List.getD_eq_getElem?_getD, hj]

theorem getD_tabulate {z : ℕ → ℚ} {n : ℕ} (hz : ∀ j, n ≤ j → z j = 0) :
    (fun j => ((List.range n).map z).getD j 0) = z := by
  funext j
  rcases lt_or_ge j n with h | h
  · exact getD_map_range z h
  · rw [getD_eq_zero (by simpa using h), hz j h]

theorem dot_eq_sum {xs ys : List ℚ} {n : ℕ} (h : xs.length ≤ n) :
    dot xs ys = ∑ j ∈ Finset.range n, xs.getD j 0 * ys.getD j 0 := by
  rw [dot, Scalar.sum_eq]
  induction xs generalizing ys n with
  | nil => simp
  | cons x xs ih =>
      obtain ⟨n, rfl⟩ : ∃ k, n = k + 1 := ⟨n - 1, by simp at h; omega⟩
      have hn : xs.length ≤ n := by simpa using h
      cases ys with
      | nil => simp
      | cons y ys =>
          rw [Finset.sum_range_succ']
          simp [ih hn, add_comm]

theorem sum_zip_eq {α β : Type} {xs : List α} {ys : List β} (hlen : xs.length = ys.length)
    {g : α × β → ℚ} {s : ℕ → ℚ}
    (h : ∀ k x y, xs[k]? = some x → ys[k]? = some y → g (x, y) = s k) :
    ((xs.zip ys).map g).sum = ∑ k ∈ Finset.range xs.length, s k := by
  have hmap : (xs.zip ys).map g = (List.range xs.length).map s := by
    refine List.ext_getElem (by simp [hlen]) ?_
    intro k hk _
    rw [List.length_map, List.length_zip] at hk
    rw [List.getElem_map, List.getElem_map, List.getElem_range, List.getElem_zip]
    exact h k _ _ (List.getElem?_eq_getElem (by omega)) (List.getElem?_eq_getElem (by omega))
  rw [hmap]
  rfl

theorem length_foldl {ι β : Type} {step : List β → ι → List β}
    (h : ∀ d e, (step d e).length = d.length) (es : List ι) (d : List β) :
    (es.foldl step d).length = d.length := by
  induction es generalizing d with
  | nil => rfl
  | cons e es ih => rw [List.foldl_cons, ih, h]

theorem map_modify {α β : Type} {g : α → β} {f : α → α} (h : ∀ x, g (f x) = g x) (xs : List α)
    (i : ℕ) : (xs.modify i f).map g = xs.map g := by
  refine List.ext_getElem (by simp) ?_
  intro k _ _
  simp only [List.getElem_map, List.getElem_modify]
  split
  · exact h _
  · rfl

/-! ## Consecutive places

Columns are handed out one after the other to the elements of a list that need one, so the place
of an element is a count over those before it. -/

theorem countP_take_lt {α : Type} {p : α → Bool} {xs : List α} {i k : ℕ} (hi : i < xs.length)
    (hp : p xs[i] = true) (hik : i < k) : (xs.take i).countP p < (xs.take k).countP p := by
  have hsucc : (xs.take (i + 1)).countP p = (xs.take i).countP p + 1 := by
    rw [List.take_succ_eq_append_getElem hi, List.countP_append]
    simp [hp]
  have hmono : (xs.take (i + 1)).countP p ≤ (xs.take k).countP p :=
    (List.take_sublist_take_left hik).countP_le
  omega

theorem countP_take_lt_countP {α : Type} {p : α → Bool} {xs : List α} {i : ℕ}
    (hi : i < xs.length) (hp : p xs[i] = true) : (xs.take i).countP p < xs.countP p := by
  simpa using countP_take_lt hi hp hi

theorem exists_countP_take {α : Type} {p : α → Bool} {xs : List α} {n : ℕ}
    (h : n < xs.countP p) : ∃ k x, xs[k]? = some x ∧ p x = true ∧ (xs.take k).countP p = n := by
  induction xs generalizing n with
  | nil => simp at h
  | cons x xs ih =>
      by_cases hx : p x = true
      · cases n with
        | zero => exact ⟨0, x, rfl, hx, rfl⟩
        | succ n =>
            rw [List.countP_cons_of_pos hx] at h
            obtain ⟨k, y, hy, hpy, hn⟩ := ih (Nat.lt_of_succ_lt_succ h)
            refine ⟨k + 1, y, hy, hpy, ?_⟩
            rw [List.take_succ_cons, List.countP_cons_of_pos hx, hn]
      · rw [List.countP_cons_of_neg hx] at h
        obtain ⟨k, y, hy, hpy, hn⟩ := ih h
        refine ⟨k + 1, y, hy, hpy, ?_⟩
        rw [List.take_succ_cons, List.countP_cons_of_neg hx, hn]

theorem getElem?_filterMap {α β : Type} {g : α → Option β} {xs : List α} {k : ℕ} {x : α} {b : β}
    (hx : xs[k]? = some x) (hb : g x = some b) :
    (xs.filterMap g)[(xs.take k).countP fun x => (g x).isSome]? = some b := by
  induction xs generalizing k with
  | nil => simp at hx
  | cons z xs ih =>
      cases k with
      | zero =>
          obtain rfl : z = x := by simpa using hx
          simp [hb]
      | succ k =>
          have hrec := ih (by simpa using hx)
          cases hz : g z with
          | none => simpa [hz] using hrec
          | some a => simpa [hz] using hrec

end Dense

end LinProg
