/-
Sparse vectors as sorted arrays.

An entry is looked for by binary search, and is read, replaced, taken out or
put in at the place where the search ends.  In a sorted vector that place is
always there.  What is asked of a listing before it is read, and of a column
before its cost is split off, keeps every subtraction of an index above zero.
-/
import LinProg.Engine.Matrix
import LinProg.Proofs.Access.Basic
import LinProg.Proofs.Model.Canonical

namespace LinProg

open Checked

variable {α : Type} [Scalar α]

namespace Sparse

/-! ## Search -/

/-- The end of a search for an index in a sorted vector. -/
inductive Search where
  | found (place : ℕ)
  /-- There is no entry; this is where it would have to be put in. -/
  | missing (place : ℕ)

section Search

omit [Scalar α]

/-- Search for an index: the first entry that is not below it tells whether it is there. -/
def search (i : ℕ) (v : Sparse α) : Search :=
  let place := v.findIdx fun e => i ≤ e.1
  if v[place]?.any fun e => e.1 = i then .found place else .missing place

/-- What the end of a search says about a vector. -/
inductive Splits (i : ℕ) : Sparse α → Search → Prop
  | found {a b : Sparse α} {x : α} : (∀ e ∈ a, e.1 < i) →
      Splits i (a ++ (i, x) :: b) (.found a.length)
  | missing {a b : Sparse α} : (∀ e ∈ a, e.1 < i) → (∀ e ∈ b, i < e.1) →
      Splits i (a ++ b) (.missing a.length)

/-- The end of a search in a vector with one more entry before the others. -/
def Search.next : Search → Search
  | found place => found (place + 1)
  | missing place => missing (place + 1)

theorem search_cons_of_lt {e : ℕ × α} {v : Sparse α} {i : ℕ} (h : e.1 < i) :
    search i (e :: v) = (search i v).next := by
  have hplace : (e :: v).findIdx (fun e => decide (i ≤ e.1))
      = v.findIdx (fun e => decide (i ≤ e.1)) + 1 := by
    rw [List.findIdx_cons, decide_eq_false h.not_ge]
    rfl
  rw [search, hplace, search]
  simp only [List.getElem?_cons_succ]
  split
  · rfl
  · rfl

theorem search_cons_of_ge {e : ℕ × α} {v : Sparse α} {i : ℕ} (h : i ≤ e.1) :
    search i (e :: v) = if e.1 = i then .found 0 else .missing 0 := by
  have hplace : (e :: v).findIdx (fun e => decide (i ≤ e.1)) = 0 := by
    rw [List.findIdx_cons, decide_eq_true h]
    rfl
  rw [search, hplace]
  simp

theorem Splits.cons {e : ℕ × α} {v : Sparse α} {i : ℕ} {s : Search} (he : e.1 < i)
    (h : v.Splits i s) : Splits i (e :: v) s.next := by
  have hcons : ∀ a : Sparse α, (∀ d ∈ a, d.1 < i) → ∀ d ∈ e :: a, d.1 < i := fun a ha =>
    List.forall_mem_cons.mpr ⟨he, ha⟩
  cases h with
  | found ha => exact .found (hcons _ ha)
  | missing ha hb => exact .missing (hcons _ ha) hb

theorem splits_search {v : Sparse α} (hv : v.Sorted) (i : ℕ) : v.Splits i (v.search i) := by
  induction v with
  | nil => exact .missing (a := []) (b := []) nofun nofun
  | cons e v ih =>
      obtain ⟨he, hv⟩ := List.pairwise_cons.mp hv
      rcases lt_trichotomy e.1 i with h | h | h
      · rw [search_cons_of_lt h]
        exact (ih hv).cons h
      · rw [search_cons_of_ge h.ge, if_pos h]
        obtain ⟨j, x⟩ := e
        obtain rfl : j = i := h
        exact .found (a := []) nofun
      · rw [search_cons_of_ge h.le, if_neg h.ne']
        exact .missing (a := []) nofun
          (List.forall_mem_cons.mpr ⟨h, fun d hd => h.trans (he d hd)⟩)

end Search

/-! ## Reading and writing one entry -/

def getM (i : ℕ) (v : Sparse α) : Checked α :=
  match v.search i with
  | .found place => do return (← read v place).2
  | .missing _ => .ok 0

def setM (i : ℕ) (x : α) (v : Sparse α) : Checked (Sparse α) :=
  match v.search i with
  | .found place =>
      if Scalar.isZero x then takeOut v place else alter v place fun e => .ok (e.1, x)
  | .missing place => if Scalar.isZero x then .ok v else putIn v place (i, x)

theorem get_append {i : ℕ} {a : Sparse α} (ha : ∀ e ∈ a, e.1 < i) (b : Sparse α) :
    get i (a ++ b) = get i b := by
  induction a with
  | nil => rfl
  | cons e a ih =>
      obtain ⟨he, ha⟩ := List.forall_mem_cons.mp ha
      rw [List.cons_append, get, if_neg he.ne', ih ha]

theorem set_append {i : ℕ} {a : Sparse α} (ha : ∀ e ∈ a, e.1 < i) (x : α) (b : Sparse α) :
    set i x (a ++ b) = a ++ set i x b := by
  induction a with
  | nil => rfl
  | cons e a ih =>
      obtain ⟨he, ha⟩ := List.forall_mem_cons.mp ha
      rw [List.cons_append, set, if_neg he.not_gt, if_neg he.ne', ih ha, List.cons_append]

theorem get_of_lt {i : ℕ} {v : Sparse α} (h : ∀ e ∈ v, i < e.1) : get i v = 0 := by
  rw [get_eq_lookup, lookup_eq_none fun e he => (h e he).ne']
  rfl

theorem set_of_lt {i : ℕ} {v : Sparse α} (h : ∀ e ∈ v, i < e.1) (x : α) :
    set i x v = entry i x ++ v := by
  rw [entry]
  cases v with
  | nil => rw [set, List.append_nil]
  | cons e v =>
      rw [set, if_pos (h e List.mem_cons_self)]
      split
      · rfl
      · rfl

theorem getM_eq {v : Sparse α} (hv : v.Sorted) (i : ℕ) : v.getM i = .ok (v.get i) := by
  rw [getM]
  have hsplits := splits_search hv i
  generalize v.search i = s at hsplits
  cases hsplits with
  | @found a b x ha =>
      have hread : read (a ++ (i, x) :: b) a.length = .ok (i, x) := by
        refine read_of_getElem? ?_
        rw [List.getElem?_append_right le_rfl, Nat.sub_self]
        rfl
      simp only [hread]
      rw [get_append ha, get, if_pos rfl]
      rfl
  | missing ha hb => rw [get_append ha, get_of_lt hb]

theorem setM_eq {v : Sparse α} (hv : v.Sorted) (i : ℕ) (x : α) :
    v.setM i x = .ok (v.set i x) := by
  rw [setM]
  have hsplits := splits_search hv i
  generalize v.search i = s at hsplits
  cases hsplits with
  | @found a b y ha =>
      have hplace : a.length < (a ++ (i, y) :: b).length := by simp
      simp only
      rw [set_append ha, set, if_neg (lt_irrefl i), if_pos rfl]
      split
      · rw [takeOut_eq_ok hplace, List.eraseIdx_append_of_length_le le_rfl, Nat.sub_self]
        rfl
      · rw [alter_eq_ok (g := fun e => (e.1, x)) hplace rfl]
        exact congrArg Except.ok (List.modifyTailIdx_add _ 0 a _)
  | @missing a b ha hb =>
      simp only
      rw [set_append ha, set_of_lt hb, entry]
      split
      · rfl
      · rw [putIn_eq_ok (by simp)]
        exact congrArg Except.ok (List.modifyTailIdx_add _ 0 a b)

/-! ## Dense vectors -/

def dotM (v : Sparse α) (dense : List α) : Checked α := do
  let products ← v.mapM fun (i, x) => do return x * (← read dense i)
  return Scalar.sum products

theorem dotM_eq {v : Sparse α} {dense : List α} (h : v.Within dense.length) :
    v.dotM dense = .ok (v.dot dense) := by
  have hproducts : v.mapM (fun (i, x) => do return x * (← read dense i))
      = (.ok (v.map fun (i, x) => x * dense.getD i 0) : Checked (List α)) := by
    refine mapM_eq_ok ?_
    rintro ⟨i, x⟩ he
    simp only [read_eq_getD (h (i, x) he) 0, ok_bind, pure_eq_ok]
  rw [dotM, hproducts, ok_bind]
  rfl

example : Sparse.dotM [(0, (2 : ℚ)), (3, 1)] [5] = .error (.outside 3 1) := rfl

/-- The first `n` values, zeros included: the entries are written over zeros. -/
def toDenseM (n : ℕ) (v : Sparse α) : Checked (List α) :=
  v.foldlM (fun values (i, x) => write values i x) (List.replicate n 0)

theorem toDenseM_eq {v : Sparse α} {n : ℕ} (hv : v.Sorted) (h : v.Within n) :
    v.toDenseM n = .ok (v.toDense n) := by
  have hwritten : v.foldlM (fun values (i, x) => write values i x) (List.replicate n (0 : α))
      = .ok (v.foldl (fun values e => values.modify e.1 fun _ => e.2) (List.replicate n 0)) := by
    refine (foldlM_eq_ok (fun values => values.length = n) ?_ (List.length_replicate ..)).1
    rintro values hlen ⟨i, x⟩ he
    have hi : i < values.length := (h (i, x) he).trans_eq hlen.symm
    refine ⟨?_, ?_⟩
    · show write values i x = .ok (values.modify i fun _ => x)
      rw [write_eq_ok hi, List.set_eq_modify]
    · rw [List.length_modify, hlen]
  rw [toDenseM, hwritten, toDense]
  refine congrArg Except.ok (List.ext_getElem? ?_)
  intro i
  rw [getElem?_foldl_modify (fun x _ => x) hv, List.getElem?_replicate, List.getElem?_map]
  split
  · rename_i hi
    rw [List.getElem?_range hi, Option.map_some, Option.map_some, get_eq_lookup]
    cases v.lookup i with
    | none => rfl
    | some x => rfl
  · rename_i hi
    rw [List.getElem?_eq_none (by simpa using hi)]
    rfl

end Sparse

/-! ## What callers hand over -/

namespace Listing

def readM? (first last shift : ℕ) (l : Listing α) : Checked (Option (Sparse α)) := do
  if l.values.length < l.count ∨ l.indices.length < l.count then
    return none
  let indices ← front l.count l.indices
  if indices.any fun i => i < first ∨ last < i then
    return none
  let lowered ← indices.mapM fun i => lower i shift
  let values ← front l.count l.values
  return some (Sparse.collect (lowered.zip values))

theorem readM?_eq {first last shift : ℕ} (hshift : shift ≤ first) (l : Listing α) :
    l.readM? first last shift = .ok (l.read? first last shift) := by
  rw [readM?, read?]
  split
  · rename_i hshort
    rw [if_neg]
    · rfl
    · rintro ⟨hvalues, hindices, -⟩
      omega
  · rename_i hlong
    obtain ⟨hvalues, hindices⟩ : l.count ≤ l.values.length ∧ l.count ≤ l.indices.length := by omega
    rw [front_eq_ok hindices, ok_bind]
    split
    · rename_i hstray
      obtain ⟨i, hi, hout⟩ := List.any_eq_true.mp hstray
      have hout : i < first ∨ last < i := of_decide_eq_true hout
      rw [if_neg]
      · rfl
      · rintro ⟨-, -, hvalid⟩
        have hin := hvalid i hi
        omega
    · rename_i hstray
      have hvalid : ∀ i ∈ l.indices.take l.count, first ≤ i ∧ i ≤ last := by
        intro i hi
        by_contra hout
        refine hstray (List.any_eq_true.mpr ⟨i, hi, decide_eq_true ?_⟩)
        omega
      have hlower : ∀ i ∈ l.indices.take l.count, lower i shift = .ok (i - shift) :=
        fun i hi => lower_eq_ok (hshift.trans (hvalid i hi).1)
      rw [mapM_eq_ok hlower, ok_bind, front_eq_ok hvalues, ok_bind, if_pos ⟨hvalues, hindices, hvalid⟩]
      rfl

end Listing

namespace Engine

def splitCostM (v : Sparse α) : Checked (α × Sparse α) :=
  match v.head? with
  | some (0, cost) => do
      let values ← rest 1 v
      return (cost, ← values.mapM fun (i, x) => do return (← lower i 1, x))
  | _ => do
      return (0, ← v.mapM fun (i, x) => do return (← lower i 1, x))

omit [Scalar α] in
theorem mapM_lower_eq {v : Sparse α} (h : ∀ e ∈ v, 1 ≤ e.1) :
    v.mapM (fun (i, x) => do return (← lower i 1, x))
      = (.ok (v.map fun (i, x) => (i - 1, x)) : Checked (Sparse α)) := by
  refine mapM_eq_ok ?_
  rintro ⟨i, x⟩ he
  simp only [lower_eq_ok (h (i, x) he), ok_bind, pure_eq_ok]

theorem splitCostM_eq {v : Sparse α} (hv : v.Sorted) : splitCostM v = .ok (splitCost v) := by
  cases v with
  | nil => rfl
  | cons e v =>
      obtain ⟨he, -⟩ := List.pairwise_cons.mp hv
      have hrest : ∀ d ∈ v, 1 ≤ d.1 := fun d hd => Nat.one_le_of_lt (he d hd)
      obtain ⟨i, x⟩ := e
      cases i with
      | zero =>
          have hfront : rest 1 ((0, x) :: v) = .ok v := rest_eq_ok (Nat.succ_pos v.length)
          rw [splitCostM, List.head?_cons]
          simp only [hfront, ok_bind]
          rw [mapM_lower_eq hrest]
          rfl
      | succ i =>
          have hall : ∀ d ∈ (i + 1, x) :: v, 1 ≤ d.1 :=
            List.forall_mem_cons.mpr ⟨Nat.succ_pos i, hrest⟩
          rw [splitCostM, List.head?_cons]
          simp only [mapM_lower_eq hall]
          rfl

end Engine
end LinProg
