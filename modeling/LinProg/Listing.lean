/-
Listings: sparse vectors as callers hand them over.

A listing may name an index many times and in any order.  Reading it
checks the indices and merges the values of each.
-/
import LinProg.Sparse

namespace LinProg

/-- A sparse vector as callers hand it over: values and the indices they belong to, of both of
which the first `count` matter. -/
structure Listing (α : Type) where
  count : Nat
  values : List α
  indices : List Nat
deriving DecidableEq

namespace Listing

variable {α : Type} [Scalar α]

/-- The nonzero values of a dense vector whose first value has the index `first`. -/
def ofDense (first : Nat) (values : List α) : Listing α :=
  let v := Sparse.ofDense first values
  ⟨v.length, v.map Prod.snd, v.map Prod.fst⟩

/-- Whether there are enough values and indices, and the indices lie between two bounds. -/
def Valid (first last : Nat) (l : Listing α) : Prop :=
  l.count ≤ l.values.length ∧ l.count ≤ l.indices.length ∧
    ∀ i ∈ l.indices.take l.count, first ≤ i ∧ i ≤ last

instance (first last : Nat) (l : Listing α) : Decidable (l.Valid first last) :=
  inferInstanceAs (Decidable (_ ∧ _ ∧ ∀ i ∈ l.indices.take l.count, first ≤ i ∧ i ≤ last))

/-- The entries that a listing lists, each index lowered by `shift`. -/
def entries (shift : Nat) (l : Listing α) : List (Nat × α) :=
  ((l.indices.take l.count).map (· - shift)).zip (l.values.take l.count)

/-- The sparse vector of a valid listing, its indices lowered by `shift`. -/
def read? (first last shift : Nat) (l : Listing α) : Option (Sparse α) :=
  if l.Valid first last then some (Sparse.collect (l.entries shift)) else none

end Listing

end LinProg
