/-
Sparse vectors: lists of (index, value) entries in increasing order of
index, without zeros; what is not listed is zero.

`collect` brings any list of entries into this form, adding up the values
of a repeated index from left to right before it drops the zeros.  The
reading and writing of single entries keeps the form.
-/
import LinProg.Scalar

namespace LinProg

/-- Entries of a vector by index. -/
abbrev Sparse (α : Type) := List (Nat × α)

namespace Sparse

variable {α : Type} [Scalar α]

/-- Add a value to the entry at an index, which is made where there is none. -/
def add (i : Nat) (x : α) : Sparse α → Sparse α
  | [] => [(i, x)]
  | (j, y) :: rest =>
      if i < j then (i, x) :: (j, y) :: rest
      else if i = j then (i, y + x) :: rest
      else (j, y) :: add i x rest

/-- The vector with the given entries, where those of one index are added in their order.  It is
what sorting the entries stably by index, merging neighbours of one index and dropping the zeros
come to, with `sorted_by` and `coalesce` of itertools as these are documented (`arrange` and
`coalesce`, to which it is proved equal). -/
def collect (entries : List (Nat × α)) : Sparse α :=
  (entries.foldl (fun v e => add e.1 e.2 v) []).filter fun e => !Scalar.isZero e.2

/-- The nonzero values of a dense vector whose first value has the index `first`. -/
def ofDense (first : Nat) : List α → Sparse α
  | [] => []
  | x :: xs =>
      if Scalar.isZero x then ofDense (first + 1) xs else (first, x) :: ofDense (first + 1) xs

def get (i : Nat) : Sparse α → α
  | [] => 0
  | (j, y) :: rest => if i = j then y else get i rest

/-- Write the value at an index; a zero is not kept. -/
def set (i : Nat) (x : α) : Sparse α → Sparse α
  | [] => if Scalar.isZero x then [] else [(i, x)]
  | (j, y) :: rest =>
      if i < j then (if Scalar.isZero x then (j, y) :: rest else (i, x) :: (j, y) :: rest)
      else if i = j then (if Scalar.isZero x then rest else (i, x) :: rest)
      else (j, y) :: set i x rest

/-- Delete an index; the indices after it move down by one.  This is assumed of index-utils, whose
removal from a sparse vector is documented to keep the order and to shift the later indices down;
for an ordered vector and one index that leaves no other result. -/
def delete (i : Nat) (v : Sparse α) : Sparse α :=
  v.filterMap fun (j, y) =>
    if j = i then none else some (if i < j then j - 1 else j, y)

def toDense (n : Nat) (v : Sparse α) : List α := (List.range n).map fun i => v.get i

def Within (n : Nat) (v : Sparse α) : Prop := ∀ e ∈ v, e.1 < n

instance (n : Nat) (v : Sparse α) : Decidable (Within n v) :=
  inferInstanceAs (Decidable (∀ e ∈ v, e.1 < n))

/-- Inner product with a dense vector, which is zero past its end. -/
def dot (v : Sparse α) (dense : List α) : α :=
  Scalar.sum (v.map fun (i, x) => x * dense.getD i 0)

/-- Inner product with a dense vector that has a value at every index of the sparse one. -/
def dot? (v : Sparse α) (dense : List α) : Option α :=
  if Within dense.length v then some (v.dot dense) else none

end Sparse

end LinProg
