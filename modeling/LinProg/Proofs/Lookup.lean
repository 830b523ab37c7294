/-
What a sparse vector stores for an index.

Reading an index that is not stored gives zero; to speak of what is stored,
and not only of what is read, one asks for the `lookup`.
-/
import LinProg.Proofs.Sparse

namespace LinProg
namespace Sparse

variable {α : Type} {v w : Sparse α} {i : ℕ}

theorem lookup_cons (e : ℕ × α) (v : Sparse α) (i : ℕ) :
    List.lookup i (e :: v) = if i = e.1 then some e.2 else v.lookup i := by
  rw [List.lookup]
  split
  · rename_i h
    rw [if_pos (beq_iff_eq.mp h)]
  · rename_i h
    rw [if_neg (beq_eq_false_iff_ne.mp h)]

theorem lookup_eq_none (h : ∀ e ∈ v, e.1 ≠ i) : v.lookup i = none := by
  rw [List.lookup_eq_none_iff]
  intro e he
  simpa using (h e he).symm

theorem mem_of_lookup {x : α} (h : v.lookup i = some x) : (i, x) ∈ v := by
  obtain ⟨before, after, rfl, -⟩ := List.lookup_eq_some_iff.mp h
  exact List.mem_append_right before List.mem_cons_self

theorem lookup_of_mem (hv : v.Sorted) {e : ℕ × α} (he : e ∈ v) : v.lookup e.1 = some e.2 := by
  induction v with
  | nil => cases he
  | cons d v ih =>
      obtain ⟨hd, hv⟩ := List.pairwise_cons.mp hv
      rw [lookup_cons]
      rcases List.mem_cons.mp he with rfl | he
      · exact if_pos rfl
      · rw [if_neg (hd e he).ne']
        exact ih hv he

theorem get_eq_lookup [Scalar α] (i : ℕ) (v : Sparse α) : v.get i = (v.lookup i).getD 0 := by
  induction v with
  | nil => rfl
  | cons e v ih =>
      rw [get, lookup_cons, ih]
      split
      · rfl
      · rfl

theorem lookup_filter_index (p : ℕ → Bool) (v : Sparse α) (i : ℕ) :
    (v.filter fun e => p e.1).lookup i = if p i then v.lookup i else none := by
  induction v with
  | nil => simp
  | cons e v ih =>
      rw [List.filter_cons, lookup_cons]
      by_cases h : i = e.1
      · subst h
        split
        · rw [lookup_cons, if_pos rfl, if_pos rfl]
        · rename_i hp
          rw [ih, if_neg hp]
      · rw [if_neg h]
        split
        · rw [lookup_cons, if_neg h, ih]
        · exact ih

theorem lookup_filter_value (hv : v.Sorted) (p : α → Bool) (i : ℕ) :
    (v.filter fun e => p e.2).lookup i = (v.lookup i).filter p := by
  induction v with
  | nil => rfl
  | cons e v ih =>
      obtain ⟨he, hv⟩ := List.pairwise_cons.mp hv
      rw [List.filter_cons, lookup_cons]
      by_cases h : i = e.1
      · subst h
        have hrest : v.lookup e.1 = none := lookup_eq_none fun d hd => (he d hd).ne'
        rw [if_pos rfl, Option.filter_some]
        split
        · rw [lookup_cons, if_pos rfl]
        · rw [ih hv, hrest, Option.filter_none]
      · rw [if_neg h]
        split
        · rw [lookup_cons, if_neg h, ih hv]
        · exact ih hv

/-- Where every entry changes the place of its index, each place is changed by the one entry that
is stored for it, if there is one. -/
theorem getElem?_foldl_modify {β : Type} (f : α → β → β) (hv : v.Sorted) (d : List β) (i : ℕ) :
    (v.foldl (fun d e => d.modify e.1 (f e.2)) d)[i]?
      = d[i]?.map fun z => (v.lookup i).elim z fun x => f x z := by
  induction v generalizing d with
  | nil => exact (Option.map_id' (x := d[i]?)).symm
  | cons e v ih =>
      obtain ⟨he, hv⟩ := List.pairwise_cons.mp hv
      rw [List.foldl_cons, ih hv, List.getElem?_modify, lookup_cons]
      by_cases h : i = e.1
      · have hrest : v.lookup i = none := lookup_eq_none fun d hd => (h ▸ he d hd).ne'
        rw [hrest, if_pos h]
        cases d[i]? with
        | none => rfl
        | some z => simp [h]
      · rw [if_neg h]
        cases d[i]? with
        | none => rfl
        | some z => simp [Ne.symm h]

end Sparse
end LinProg
