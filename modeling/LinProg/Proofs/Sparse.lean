/-
Sparse vectors as linear forms.

A list of entries means the sum that every index gets from it (`weight`),
whatever the order of the entries and however often an index occurs.  The
folds that write entries into a dense vector and the inner products are
read through it.
-/
import LinProg.Proofs.Dense

namespace LinProg
namespace Sparse

/-- The sum of the entries of an index. -/
def weight (v : Sparse ℚ) (j : ℕ) : ℚ := (v.map fun e => if e.1 = j then e.2 else 0).sum

def Sorted {α : Type} (v : Sparse α) : Prop := v.Pairwise fun a b => a.1 < b.1

variable {v w : Sparse ℚ} {j : ℕ}

@[simp] theorem weight_nil : weight [] j = 0 := rfl

@[simp] theorem weight_cons (e : ℕ × ℚ) :
    weight (e :: v) j = (if e.1 = j then e.2 else 0) + weight v j := by
  rw [weight, List.map_cons, List.sum_cons]
  rfl

theorem weight_append : weight (v ++ w) j = weight v j + weight w j := by
  simp only [weight, List.map_append, List.sum_append]

theorem weight_eq_zero (h : ∀ e ∈ v, e.1 ≠ j) : weight v j = 0 := by
  induction v with
  | nil => rfl
  | cons e v ih =>
      rw [weight_cons, if_neg (h e List.mem_cons_self), zero_add]
      exact ih fun e he => h e (List.mem_cons_of_mem _ he)

theorem weight_scale (c : ℚ) : weight (v.map fun e => (e.1, c * e.2)) j = c * weight v j := by
  induction v with
  | nil => simp
  | cons e v ih =>
      rw [List.map_cons, weight_cons, weight_cons, ih, mul_add, mul_ite, mul_zero]

theorem weight_flatMap {ι : Type} (l : List ι) (g : ι → Sparse ℚ) :
    weight (l.flatMap g) j = (l.map fun a => weight (g a) j).sum := by
  induction l with
  | nil => rfl
  | cons a l ih => rw [List.flatMap_cons, weight_append, ih, List.map_cons, List.sum_cons]

/-- Where no index occurs twice the weights are the values. -/
theorem get_eq_weight (hv : v.Sorted) (j : ℕ) : v.get j = weight v j := by
  induction v with
  | nil => rfl
  | cons e v ih =>
      obtain ⟨he, hv⟩ := List.pairwise_cons.mp hv
      rw [get, weight_cons]
      by_cases hj : j = e.1
      · subst hj
        have hrest : weight v e.1 = 0 := weight_eq_zero fun e' he' => (he e' he').ne'
        rw [if_pos rfl, if_pos rfl, hrest, add_zero]
      · rw [if_neg hj, if_neg (Ne.symm hj), zero_add]
        exact ih hv

theorem find?_stray_eq_none {α : Type} {v : Sparse α} {n : ℕ} :
    (v.find? fun e => decide (n ≤ e.1)) = none ↔ v.Within n := by
  simp only [List.find?_eq_none, decide_eq_true_eq, not_le]
  rfl

/-! ## Inner products -/

theorem dot_cons (e : ℕ × ℚ) (y : List ℚ) :
    dot (e :: v) y = e.2 * y.getD e.1 0 + dot v y := by
  simp only [dot, Scalar.sum_eq, List.map_cons, List.sum_cons]

theorem dot_singleton (k : ℕ) (a : ℚ) (y : List ℚ) : dot [(k, a)] y = a * y.getD k 0 := by
  rw [dot_cons]
  exact add_zero _

theorem dot_append (y : List ℚ) : dot (v ++ w) y = dot v y + dot w y := by
  simp only [dot, Scalar.sum_eq, List.map_append, List.sum_append]

theorem dot_scale (c : ℚ) (y : List ℚ) :
    dot (v.map fun e => (e.1, c * e.2)) y = c * dot v y := by
  induction v with
  | nil => simp [dot]
  | cons e v ih => rw [List.map_cons, dot_cons, dot_cons, ih, mul_add, mul_assoc]

/-- An inner product depends on the values at the indices of the sparse vector only. -/
theorem dot_congr {y z : List ℚ} (h : ∀ e ∈ v, y.getD e.1 0 = z.getD e.1 0) :
    dot v y = dot v z := by
  induction v with
  | nil => rfl
  | cons e v ih =>
      rw [dot_cons, dot_cons, h e List.mem_cons_self,
        ih fun e he => h e (List.mem_cons_of_mem _ he)]

theorem dot_eq_sum {y : List ℚ} {n : ℕ} (hn : y.length ≤ n) :
    dot v y = ∑ j ∈ Finset.range n, weight v j * y.getD j 0 := by
  induction v with
  | nil => simp [dot]
  | cons e v ih =>
      have hone : ∑ j ∈ Finset.range n, (if e.1 = j then e.2 else 0) * y.getD j 0
          = e.2 * y.getD e.1 0 := by
        rcases lt_or_ge e.1 n with he | he
        · rw [Finset.sum_eq_single_of_mem e.1 (Finset.mem_range.mpr he), if_pos rfl]
          intro j _ hj
          rw [if_neg (Ne.symm hj), zero_mul]
        · rw [Dense.getD_eq_zero (hn.trans he), mul_zero]
          refine Finset.sum_eq_zero ?_
          intro j hj
          rw [if_neg ((Finset.mem_range.mp hj).trans_le he).ne', zero_mul]
      rw [dot_cons, ih, ← hone, ← Finset.sum_add_distrib]
      exact Finset.sum_congr rfl fun j _ => by rw [weight_cons, add_mul]

theorem dot_eq_sum_of_within {y : List ℚ} {n : ℕ} (hv : v.Within n) :
    dot v y = ∑ j ∈ Finset.range n, weight v j * y.getD j 0 := by
  have htab : ∀ j < n, ((List.range n).map fun j => y.getD j 0).getD j 0 = y.getD j 0 :=
    fun j hj => Dense.getD_map_range (fun j => y.getD j 0) hj
  rw [← dot_congr fun e he => htab e.1 (hv e he), dot_eq_sum (n := n) (by simp)]
  exact Finset.sum_congr rfl fun j hj => by rw [htab j (Finset.mem_range.mp hj)]

/-! ## Entries written into a dense vector -/

theorem length_accumulate {ι : Type} (key : ι → ℕ) (value : ι → ℚ) (es : List ι) (d : List ℚ) :
    (es.foldl (fun d e => d.modify (key e) (· + value e)) d).length = d.length :=
  Dense.length_foldl (fun _ _ => List.length_modify _ _ _) es d

/-- Every place of a dense vector gets what the entries written into it sum up to there. -/
theorem getD_accumulate {ι : Type} (key : ι → ℕ) (value : ι → ℚ) (es : List ι) {d : List ℚ}
    (hj : j < d.length) :
    (es.foldl (fun d e => d.modify (key e) (· + value e)) d).getD j 0
      = d.getD j 0 + weight (es.map fun e => (key e, value e)) j := by
  induction es generalizing d with
  | nil => simp
  | cons e es ih =>
      rw [List.foldl_cons, ih (by rwa [List.length_modify]), Dense.getD_modify_add hj,
        List.map_cons, weight_cons, add_assoc]

end Sparse
end LinProg
