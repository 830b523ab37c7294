/-
Collecting entries by sorting and merging them.

`collect` puts the entries into a vector one at a time.  What comes out depends
only on the values of each index and their order: a sum is taken from left to
right, so among rounded scalars this order shows, while entries of different
indices may change places.

One may therefore sort the entries first, as long as those of one index stay in
their order, then add up the neighbours of one index (`coalesce`) and drop the
zeros last.  A zero that comes up on the way does not count: it may be a sum
that further values are added to.
-/
import LinProg.Proofs.Model.Determined

namespace LinProg
namespace Sparse

variable {α : Type}

/-! ## Sorting -/

def notAfter (e d : ℕ × α) : Bool := decide (e.1 ≤ d.1)

theorem notAfter_trans (a b c : ℕ × α) (hab : notAfter a b) (hbc : notAfter b c) :
    notAfter a c := by
  rw [notAfter, decide_eq_true_eq] at *
  exact hab.trans hbc

theorem notAfter_total (a b : ℕ × α) : (notAfter a b || notAfter b a) = true := by
  rw [Bool.or_eq_true, notAfter, notAfter, decide_eq_true_eq, decide_eq_true_eq]
  exact le_total a.1 b.1

/-- The entries by increasing index, those of one index in the order in which they were. -/
def arrange (entries : List (ℕ × α)) : List (ℕ × α) := entries.mergeSort notAfter

theorem arrange_increasing (entries : List (ℕ × α)) :
    (arrange entries).Pairwise fun e d => e.1 ≤ d.1 :=
  (List.pairwise_mergeSort notAfter_trans notAfter_total entries).imp fun h => of_decide_eq_true h

/-- Sorting leaves the entries of one index alone: in the order in which they were they are sorted
already. -/
theorem filter_arrange (entries : List (ℕ × α)) (i : ℕ) :
    (arrange entries).filter (fun e => e.1 = i) = entries.filter fun e => e.1 = i := by
  have hsame : (entries.filter fun e => e.1 = i).Pairwise fun e d => notAfter e d := by
    refine List.pairwise_iff_forall_sublist.mpr ?_
    intro e d hed
    have he := (List.mem_filter.mp (hed.subset List.mem_cons_self)).2
    have hd := (List.mem_filter.mp (hed.subset (List.mem_cons_of_mem _ List.mem_cons_self))).2
    rw [decide_eq_true_eq] at he hd
    exact decide_eq_true (he.trans hd.symm).le
  have hkept : (entries.filter fun e => e.1 = i).Sublist (arrange entries) :=
    List.sublist_mergeSort notAfter_trans notAfter_total hsame List.filter_sublist
  have hinside := hkept.filter fun e => e.1 = i
  rw [List.filter_filter] at hinside
  simp only [Bool.and_self] at hinside
  refine (hinside.eq_of_length ?_).symm
  exact ((List.mergeSort_perm entries notAfter).filter _).length_eq.symm

variable [Scalar α]

omit [Scalar α] in
theorem valuesAt_eq_map (i : ℕ) (entries : List (ℕ × α)) :
    valuesAt i entries = (entries.filter fun e => e.1 = i).map Prod.snd := by
  induction entries with
  | nil => rfl
  | cons e entries ih =>
      rw [valuesAt_cons, ih]
      by_cases h : e.1 = i
      · rw [if_pos h, List.filter_cons_of_pos (by simpa using h), List.map_cons]
      · rw [if_neg h, List.filter_cons_of_neg (by simpa using h)]

/-- What is collected is told by the values of each index in their order. -/
theorem collect_congr {entries others : List (ℕ × α)}
    (h : ∀ i, others.filter (fun e => e.1 = i) = entries.filter fun e => e.1 = i) :
    collect others = collect entries := by
  refine (sorted_collect others).ext (sorted_collect entries) ?_
  intro i
  rw [lookup_collect, lookup_collect, valuesAt_eq_map, valuesAt_eq_map, h]

/-! ## Merging -/

/-- Add up neighbours of one index, from left to right, beginning with an entry before them. -/
def coalesceFrom (e : ℕ × α) : List (ℕ × α) → Sparse α
  | [] => [e]
  | d :: rest =>
      if e.1 = d.1 then coalesceFrom (e.1, e.2 + d.2) rest else e :: coalesceFrom d rest

def coalesce : List (ℕ × α) → Sparse α
  | [] => []
  | e :: rest => coalesceFrom e rest

variable {e : ℕ × α} {entries : List (ℕ × α)}

omit [Scalar α] in
theorem increasing_merge {d : ℕ × α} (h : (e :: d :: entries).Pairwise fun a b => a.1 ≤ b.1)
    (x : α) : ((e.1, x) :: entries).Pairwise fun a b => a.1 ≤ b.1 := by
  obtain ⟨he, hrest⟩ := List.pairwise_cons.mp h
  exact List.pairwise_cons.mpr
    ⟨fun b hb => he b (List.mem_cons_of_mem _ hb), (List.pairwise_cons.mp hrest).2⟩

theorem sorted_coalesceFrom (h : (e :: entries).Pairwise fun a b => a.1 ≤ b.1) :
    (coalesceFrom e entries).Sorted ∧ ∀ d ∈ coalesceFrom e entries, e.1 ≤ d.1 := by
  induction entries generalizing e with
  | nil => exact ⟨List.pairwise_singleton _ _, fun d hd => by rw [List.mem_singleton.mp hd]⟩
  | cons d rest ih =>
      obtain ⟨he, hrest⟩ := List.pairwise_cons.mp h
      rw [coalesceFrom]
      split
      · exact ih (increasing_merge h _)
      · rename_i hne
        have hlt : e.1 < d.1 := lt_of_le_of_ne (he d List.mem_cons_self) hne
        obtain ⟨hsorted, hle⟩ := ih hrest
        refine ⟨List.pairwise_cons.mpr ⟨fun b hb => hlt.trans_le (hle b hb), hsorted⟩, ?_⟩
        exact List.forall_mem_cons.mpr ⟨le_rfl, fun b hb => hlt.le.trans (hle b hb)⟩

/-- Each index gets the sum of its values, which are neighbours. -/
theorem lookup_coalesceFrom (h : (e :: entries).Pairwise fun a b => a.1 ≤ b.1) (i : ℕ) :
    (coalesceFrom e entries).lookup i = total? (valuesAt i (e :: entries)) := by
  induction entries generalizing e with
  | nil =>
      rw [coalesceFrom, lookup_cons, valuesAt_cons]
      by_cases hi : i = e.1
      · rw [if_pos hi, if_pos hi.symm]
        rfl
      · rw [if_neg hi, if_neg (Ne.symm hi)]
        rfl
  | cons d rest ih =>
      obtain ⟨he, hrest⟩ := List.pairwise_cons.mp h
      rw [coalesceFrom]
      split
      · rename_i heq
        refine (ih (increasing_merge h _)).trans ?_
        rw [valuesAt_cons, valuesAt_cons, valuesAt_cons, ← heq]
        split
        · rfl
        · rfl
      · rename_i hne
        have hlt : e.1 < d.1 := lt_of_le_of_ne (he d List.mem_cons_self) hne
        rw [lookup_cons, ih hrest, valuesAt_cons e]
        by_cases hi : i = e.1
        · have hlater : valuesAt i (d :: rest) = [] := by
            refine List.filterMap_eq_nil_iff.mpr ?_
            intro b hb
            refine if_neg (ne_of_gt (hi.trans_lt ?_))
            rcases List.mem_cons.mp hb with rfl | hb
            · exact hlt
            · exact hlt.trans_le ((List.pairwise_cons.mp hrest).1 b hb)
          rw [if_pos hi, if_pos hi.symm, hlater]
          rfl
        · rw [if_neg hi, if_neg (Ne.symm hi)]

/-- Sorted entries are collected by adding up neighbours and dropping the zeros. -/
theorem collect_of_increasing (h : entries.Pairwise fun a b => a.1 ≤ b.1) :
    collect entries = (coalesce entries).filter fun e => !Scalar.isZero e.2 := by
  have hcoalesce : (coalesce entries).Sorted ∧
      ∀ i, (coalesce entries).lookup i = total? (valuesAt i entries) := by
    cases entries with
    | nil => exact ⟨List.Pairwise.nil, fun i => rfl⟩
    | cons e rest => exact ⟨(sorted_coalesceFrom h).1, lookup_coalesceFrom h⟩
  obtain ⟨hsorted, hlookup⟩ := hcoalesce
  refine (sorted_collect entries).ext (hsorted.filter _) ?_
  intro i
  rw [lookup_collect, lookup_filter_value hsorted (fun x => !Scalar.isZero x), hlookup]

/-! ## Collecting -/

/-- The collected vector lists, by increasing index, for each index the sum of its values from left
to right, unless that is zero or there are no values.  Entries may be given in any order that keeps
the one of the values of each index; so the vector is that of the sorted entries, whose neighbours
are added up before the zeros are dropped. -/
theorem collect_merges (entries : List (ℕ × α)) :
    (collect entries).Sorted ∧ (∀ e ∈ collect entries, Scalar.isZero e.2 = false) ∧
      (∀ i x, (i, x) ∈ collect entries ↔
        total? (valuesAt i entries) = some x ∧ Scalar.isZero x = false) ∧
      (∀ others : List (ℕ × α),
        (∀ i, others.filter (fun e => e.1 = i) = entries.filter fun e => e.1 = i) →
          collect others = collect entries) ∧
      collect entries = (coalesce (arrange entries)).filter fun e => !Scalar.isZero e.2 := by
  refine ⟨sorted_collect entries, ?_, ?_, fun others => collect_congr, ?_⟩
  · intro e he
    simpa using (List.mem_filter.mp he).2
  · intro i x
    rw [(sorted_collect entries).mem_iff, lookup_collect, Option.filter_eq_some_iff,
      Bool.not_eq_true']
  · rw [← collect_congr (filter_arrange entries)]
    exact collect_of_increasing (arrange_increasing entries)

/-- Entries of three indices; the sum is zero for one of them, and by rounding for another one. -/
def scattered : List (ℕ × Float) :=
  [(3, 1e16), (1, 2), (3, 1), (0, 1), (3, -1e16), (0, -1), (1, 0.5)]

def reordered : List (ℕ × Float) :=
  [(0, 1), (0, -1), (3, 1e16), (1, 2), (1, 0.5), (3, 1), (3, -1e16)]

/-- With the entries of index 3 in another order, their sum is not lost to rounding. -/
theorem collect_merges_rounded :
    (∀ i, reordered.filter (fun e => e.1 = i) = scattered.filter fun e => e.1 = i) ∧
      collect reordered = collect scattered ∧ collect scattered = [(1, 2.5)] ∧
      collect ((3, (1e16 : Float)) :: (3, -1e16) :: (3, 1) :: [(1, 2), (1, 0.5)])
        = [(1, 2.5), (3, 1)] := by
  have hsame : ∀ i, reordered.filter (fun e => e.1 = i)
      = scattered.filter fun e => e.1 = i := by
    intro i
    rcases lt_or_ge i 4 with hi | hi
    · interval_cases i <;> simp [reordered, scattered]
    · have hnone : ∀ k < 4, k ≠ i := fun k hk => (hk.trans_le hi).ne
      simp [reordered, scattered, hnone]
  obtain ⟨-, -, -, hcongr, -⟩ := collect_merges scattered
  exact ⟨hsame, hcongr reordered hsame, by decide +kernel, by decide +kernel⟩

end Sparse
end LinProg
