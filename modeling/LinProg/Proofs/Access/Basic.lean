/-
Programs that check every access.

The definitions of a model and of the simplex method read and write lists
with total functions, which give a default or change nothing at a place that
is not there.  An array has no such place: a program on arrays stops.  Here
are reads, writes, fronts and ends of lists that stop in that case with a
fault, and the subtraction of indices that stops below zero.  A program
written with them and proved to return what the total one computes never
touches a place that is not there, whatever the total functions would have
made of it.  Such a program has the name of the total definition, with an `M`
at its end.
-/
import LinProg.Proofs.Dense

namespace LinProg

/-- An access that an array does not allow. -/
inductive Fault where
  /-- An index at or past the end of an array. -/
  | outside (index length : ℕ)
  /-- A front that is longer than the array. -/
  | tooShort (count length : ℕ)
  /-- A subtraction from an index that would go below zero. -/
  | belowZero (index amount : ℕ)
deriving DecidableEq

/-- A computation that stops at the first access that an array does not allow. -/
abbrev Checked (β : Type) := Except Fault β

namespace Checked

variable {ι β γ σ : Type}

/-! ## Accesses -/

def read (xs : List β) (i : ℕ) : Checked β :=
  match xs[i]? with
  | some x => .ok x
  | none => .error (.outside i xs.length)

def write (xs : List β) (i : ℕ) (x : β) : Checked (List β) :=
  if i < xs.length then .ok (xs.set i x) else .error (.outside i xs.length)

def alter (xs : List β) (i : ℕ) (f : β → Checked β) : Checked (List β) := do
  write xs i (← f (← read xs i))

/-- Take the element at an index out; those after it move down. -/
def takeOut (xs : List β) (i : ℕ) : Checked (List β) :=
  if i < xs.length then .ok (xs.eraseIdx i) else .error (.outside i xs.length)

/-- Put an element in at an index; the one that was there and those after it move up. -/
def putIn (xs : List β) (i : ℕ) (x : β) : Checked (List β) :=
  if i ≤ xs.length then .ok (xs.insertIdx i x) else .error (.outside i xs.length)

/-- The first elements, of which there have to be enough. -/
def front (n : ℕ) (xs : List β) : Checked (List β) :=
  if n ≤ xs.length then .ok (xs.take n) else .error (.tooShort n xs.length)

/-- The elements after the first ones, of which there have to be enough. -/
def rest (n : ℕ) (xs : List β) : Checked (List β) :=
  if n ≤ xs.length then .ok (xs.drop n) else .error (.tooShort n xs.length)

def lower (i amount : ℕ) : Checked ℕ :=
  if amount ≤ i then .ok (i - amount) else .error (.belowZero i amount)

/-! ## Accesses that are allowed -/

variable {xs : List β} {i n amount : ℕ} {x : β}

@[simp] theorem ok_bind (x : β) (f : β → Checked γ) : (Except.ok x : Checked β) >>= f = f x := rfl

@[simp] theorem map_ok (f : β → γ) (x : β) : f <$> (Except.ok x : Checked β) = .ok (f x) := rfl

@[simp] theorem pure_eq_ok (x : β) : (pure x : Checked β) = .ok x := rfl

theorem read_of_getElem? (h : xs[i]? = some x) : read xs i = .ok x := by
  rw [read, h]

theorem read_eq_ok (hi : i < xs.length) : read xs i = .ok xs[i] :=
  read_of_getElem? (List.getElem?_eq_getElem hi)

theorem read_eq_getD (hi : i < xs.length) (d : β) : read xs i = .ok (xs.getD i d) := by
  rw [read_eq_ok hi, List.getD_eq_getElem _ _ hi]

theorem write_eq_ok (hi : i < xs.length) (x : β) : write xs i x = .ok (xs.set i x) := if_pos hi

theorem takeOut_eq_ok (hi : i < xs.length) : takeOut xs i = .ok (xs.eraseIdx i) := if_pos hi

theorem putIn_eq_ok (hi : i ≤ xs.length) (x : β) : putIn xs i x = .ok (xs.insertIdx i x) :=
  if_pos hi

theorem front_eq_ok (hn : n ≤ xs.length) : front n xs = .ok (xs.take n) := if_pos hn

theorem rest_eq_ok (hn : n ≤ xs.length) : rest n xs = .ok (xs.drop n) := if_pos hn

theorem lower_eq_ok (h : amount ≤ i) : lower i amount = .ok (i - amount) := if_pos h

theorem lower_succ (i : ℕ) : lower (i + 1) 1 = .ok i := lower_eq_ok (Nat.succ_pos i)

theorem alter_eq_ok {f : β → Checked β} {g : β → β} (hi : i < xs.length)
    (hf : f xs[i] = .ok (g xs[i])) : alter xs i f = .ok (xs.modify i g) := by
  rw [alter, read_eq_ok hi, ok_bind, hf, ok_bind, write_eq_ok hi, List.modify_eq_set_getElem?,
    List.getElem?_eq_getElem hi]
  rfl

/-! ## Loops -/

theorem mapM_eq_ok {f : ι → Checked β} {g : ι → β} {xs : List ι}
    (h : ∀ x ∈ xs, f x = .ok (g x)) : xs.mapM f = .ok (xs.map g) := by
  induction xs with
  | nil => rfl
  | cons x xs ih =>
      rw [List.mapM_cons, h x List.mem_cons_self, ok_bind,
        ih fun y hy => h y (List.mem_cons_of_mem _ hy)]
      rfl

/-- A loop whose steps are allowed as long as an invariant holds that they keep. -/
theorem foldlM_eq_ok (P : σ → Prop) {f : σ → ι → Checked σ} {g : σ → ι → σ} {xs : List ι}
    (hstep : ∀ s, P s → ∀ x ∈ xs, f s x = .ok (g s x) ∧ P (g s x)) {s : σ} (hs : P s) :
    xs.foldlM f s = .ok (xs.foldl g s) ∧ P (xs.foldl g s) := by
  induction xs generalizing s with
  | nil => exact ⟨rfl, hs⟩
  | cons x xs ih =>
      obtain ⟨hok, hnext⟩ := hstep s hs x List.mem_cons_self
      rw [List.foldlM_cons, hok, ok_bind, List.foldl_cons]
      exact ih (fun s hs y hy => hstep s hs y (List.mem_cons_of_mem _ hy)) hnext

theorem findM?_eq_ok {f : ι → Checked Bool} {p : ι → Bool} {xs : List ι}
    (h : ∀ x ∈ xs, f x = .ok (p x)) : xs.findM? f = .ok (xs.find? p) := by
  induction xs with
  | nil => rfl
  | cons x xs ih =>
      rw [List.findM?, h x List.mem_cons_self, ok_bind, List.find?_cons,
        ih fun y hy => h y (List.mem_cons_of_mem _ hy)]
      cases p x with
      | true => rfl
      | false => rfl

theorem allM_eq_ok {f : ι → Checked Bool} {p : ι → Bool} {xs : List ι}
    (h : ∀ x ∈ xs, f x = .ok (p x)) : xs.allM f = .ok (xs.all p) := by
  induction xs with
  | nil => rfl
  | cons x xs ih =>
      rw [List.allM, h x List.mem_cons_self, ok_bind, List.all_cons,
        ih fun y hy => h y (List.mem_cons_of_mem _ hy)]
      cases p x with
      | true => rfl
      | false => rfl

end Checked
end LinProg
