/-
How the variables of a model are made of nonnegative columns.

There are four shapes of a variable, told by which of its bounds are
finite (`Column.Shape`).  In each of them the values of the variable that
keep to its bounds are those that nonnegative columns give, where the upper
bound of a variable with two bounds is an equation of its own.
-/
import LinProg.Proofs.Model.Feasible
import LinProg.Proofs.StandardForm.Layout

namespace LinProg

variable {infinity : ℚ}

namespace Substitution

theorem value_eq (s : Substitution ℚ) (y : List ℚ) : s.value y = s.offset + Sparse.dot s.parts y :=
  rfl

theorem value_single (offset sign : ℚ) (k : ℕ) (y : List ℚ) :
    value ⟨offset, [(k, sign)]⟩ y = offset + sign * y.getD k 0 := by
  rw [value_eq, Sparse.dot_singleton]

theorem value_pair (offset sign sign' : ℚ) (k k' : ℕ) (y : List ℚ) :
    value ⟨offset, [(k, sign), (k', sign')]⟩ y
      = offset + (sign * y.getD k 0 + sign' * y.getD k' 0) := by
  rw [value_eq, Sparse.dot_cons, Sparse.dot_singleton]

end Substitution

namespace Column

variable {c : Column ℚ} {next : ℕ}

/-- The upper bound of a variable with two bounds, which starts in column `next`. -/
def boundRow (next : ℕ) (c : Column ℚ) : Pending ℚ :=
  ⟨[(next, 1)], c.upper - c.lower, some 1, none⟩

theorem allows_boundRow {y : List ℚ} :
    (c.boundRow next).Allows y ↔ y.getD next 0 ≤ c.upper - c.lower := by
  rw [Pending.allows_iff_of_some (s := 1) rfl, one_mul, sub_nonneg]
  rw [boundRow, Sparse.dot_singleton, one_mul]

/-- The shapes of a variable, each with its substitution and its bound row. -/
inductive Shape (infinity : ℚ) (next : ℕ) (c : Column ℚ) :
    Substitution ℚ → Option (Pending ℚ) → Prop
  | boxed : Scalar.Finite infinity c.lower → Scalar.Finite infinity c.upper →
      Shape infinity next c ⟨c.lower, [(next, 1)]⟩ (some (c.boundRow next))
  | shifted : Scalar.Finite infinity c.lower → ¬ Scalar.Finite infinity c.upper →
      Shape infinity next c ⟨c.lower, [(next, 1)]⟩ none
  | mirrored : ¬ Scalar.Finite infinity c.lower → Scalar.Finite infinity c.upper →
      Shape infinity next c ⟨c.upper, [(next, -1)]⟩ none
  | free : ¬ Scalar.Finite infinity c.lower → ¬ Scalar.Finite infinity c.upper →
      Shape infinity next c ⟨0, [(next, 1), (next + 1, -1)]⟩ none

theorem shape (infinity : ℚ) (next : ℕ) (c : Column ℚ) :
    Shape infinity next c (c.substitution infinity next) (c.boundRow? infinity next) := by
  have hfin : ∀ a, (Scalar.isInfinite infinity a = false ↔ Scalar.Finite infinity a) :=
    fun a => Scalar.not_isInfinite_iff
  cases hl : Scalar.isInfinite infinity c.lower with
  | false =>
      cases hu : Scalar.isInfinite infinity c.upper with
      | false =>
          simp only [substitution, boundRow?, hl, hu]
          exact .boxed ((hfin _).mp hl) ((hfin _).mp hu)
      | true =>
          simp only [substitution, boundRow?, hl, hu]
          exact .shifted ((hfin _).mp hl) fun h => by simp [(hfin _).mpr h] at hu
  | true =>
      cases hu : Scalar.isInfinite infinity c.upper with
      | false =>
          simp only [substitution, boundRow?, hl, hu]
          exact .mirrored (fun h => by simp [(hfin _).mpr h] at hl) ((hfin _).mp hu)
      | true =>
          simp only [substitution, boundRow?, hl, hu]
          exact .free (fun h => by simp [(hfin _).mpr h] at hl)
            fun h => by simp [(hfin _).mpr h] at hu

/-- Only a variable with two bounds has a bound row. -/
theorem boundRow?_eq_some {p : Pending ℚ} (h : c.boundRow? infinity next = some p) :
    p = c.boundRow next ∧ (next, 1) ∈ (c.substitution infinity next).parts := by
  have hshape := c.shape infinity next
  rw [h] at hshape
  generalize c.substitution infinity next = s at hshape ⊢
  cases hshape with
  | boxed hl hu => exact ⟨rfl, List.mem_singleton.mpr rfl⟩

theorem row_boundRow? {α : Type} [Scalar α] {infinity : α} {c : Column α} {p : Pending α}
    (h : c.boundRow? infinity next = some p) : p.row = none := by
  obtain ⟨-, h⟩ := Option.ite_none_right_eq_some.mp h
  obtain rfl := Option.some.inj h
  rfl

def width (infinity : ℚ) (c : Column ℚ) : ℕ := (c.substitution infinity 0).parts.length

theorem length_parts (next : ℕ) : (c.substitution infinity next).parts.length = c.width infinity := by
  rw [width, substitution, substitution]
  split
  · rfl
  · split
    · rfl
    · rfl

theorem mem_parts {e : ℕ × ℚ} (he : e ∈ (c.substitution infinity next).parts) :
    next ≤ e.1 ∧ e.1 < next + c.width infinity := by
  rw [← length_parts next]
  have hshape := c.shape infinity next
  generalize c.substitution infinity next = s at he hshape ⊢
  generalize c.boundRow? infinity next = b at hshape
  cases hshape with
  | boxed | shifted | mirrored =>
      obtain rfl := List.mem_singleton.mp he
      exact ⟨le_rfl, Nat.lt_succ_self _⟩
  | free =>
      rcases List.mem_pair.mp he with rfl | rfl
      · exact ⟨le_rfl, by simp⟩
      · exact ⟨Nat.le_succ _, by simp⟩

/-- Nonnegative columns that keep to the bound row up to a tolerance give the variable a value within
its bounds up to the tolerance. -/
theorem respectsWithin_value {tolerance : ℚ} (htolerance : 0 ≤ tolerance) {y : List ℚ}
    (hy : ∀ j, 0 ≤ y.getD j 0)
    (hb : ∀ p ∈ c.boundRow? infinity next, p.AllowsWithin tolerance y) :
    c.limits.RespectsWithin tolerance infinity ((c.substitution infinity next).value y) := by
  have hshape := c.shape infinity next
  generalize c.boundRow? infinity next = b at hb hshape
  generalize c.substitution infinity next = s at hshape ⊢
  have hn := hy next
  cases hshape with
  | boxed hl hu =>
      have hbound := (Pending.allowsWithin_iff_of_some (s := 1) rfl).mp (hb _ rfl)
      rw [boundRow, Sparse.dot_singleton, one_mul, one_mul] at hbound
      rw [Substitution.value_single, one_mul]
      constructor
      · rintro _ ⟨⟩ -
        linarith
      · rintro _ ⟨⟩ -
        linarith
  | shifted hl hu =>
      rw [Substitution.value_single, one_mul]
      constructor
      · rintro _ ⟨⟩ -
        linarith
      · rintro _ ⟨⟩ hfin
        exact absurd hfin hu
  | mirrored hl hu =>
      rw [Substitution.value_single, neg_one_mul]
      constructor
      · rintro _ ⟨⟩ hfin
        exact absurd hfin hl
      · rintro _ ⟨⟩ -
        linarith
  | free hl hu =>
      constructor
      · rintro _ ⟨⟩ hfin
        exact absurd hfin hl
      · rintro _ ⟨⟩ hfin
        exact absurd hfin hu

theorem respects_value {y : List ℚ} (hy : ∀ j, 0 ≤ y.getD j 0)
    (hb : ∀ p ∈ c.boundRow? infinity next, p.Allows y) :
    c.limits.Respects infinity ((c.substitution infinity next).value y) :=
  (respectsWithin_value le_rfl hy fun p hp =>
    Pending.allowsWithin_zero_iff.mpr (hb p hp)).respects

/-- Nonnegative columns that give the variable a value. -/
def split (infinity x : ℚ) (c : Column ℚ) : List ℚ :=
  if Scalar.Finite infinity c.lower then [x - c.lower]
  else if Scalar.Finite infinity c.upper then [c.upper - x]
  else [max x 0, max (-x) 0]

theorem length_split (x : ℚ) : (c.split infinity x).length = c.width infinity := by
  have hshape := c.shape infinity 0
  rw [width, split]
  generalize c.substitution infinity 0 = s at hshape ⊢
  generalize c.boundRow? infinity 0 = b at hshape
  cases hshape with
  | boxed hl hu => rw [if_pos hl]; rfl
  | shifted hl hu => rw [if_pos hl]; rfl
  | mirrored hl hu => rw [if_neg hl, if_pos hu]; rfl
  | free hl hu => rw [if_neg hl, if_neg hu]; rfl

theorem split_nonneg {x : ℚ} (hx : c.limits.Respects infinity x) :
    ∀ v ∈ c.split infinity x, 0 ≤ v := by
  intro v hv
  rw [split] at hv
  split at hv
  · rename_i hl
    obtain rfl := List.mem_singleton.mp hv
    exact sub_nonneg.mpr (hx.lower _ rfl hl)
  · split at hv
    · rename_i hu
      obtain rfl := List.mem_singleton.mp hv
      exact sub_nonneg.mpr (hx.upper _ rfl hu)
    · rcases List.mem_pair.mp hv with rfl | rfl
      · exact le_max_right _ _
      · exact le_max_right _ _

/-- The columns into which a value is split give that value, and keep to the bound row. -/
theorem value_split {x : ℚ} (hx : c.limits.Respects infinity x) {y : List ℚ}
    (hy : ∀ i < c.width infinity, y.getD (next + i) 0 = (c.split infinity x).getD i 0) :
    (c.substitution infinity next).value y = x ∧
      ∀ p ∈ c.boundRow? infinity next, p.Allows y := by
  have hshape := c.shape infinity next
  rw [← length_parts next, split] at hy
  generalize c.boundRow? infinity next = b at hshape ⊢
  generalize c.substitution infinity next = s at hy hshape ⊢
  have hfirst := hy 0
  rw [Nat.add_zero] at hfirst
  cases hshape with
  | boxed hl hu =>
      rw [if_pos hl] at hfirst
      have hn : y.getD next 0 = x - c.lower := hfirst Nat.one_pos
      refine ⟨?_, ?_⟩
      · rw [Substitution.value_single, hn]
        ring
      · rintro _ ⟨⟩
        rw [allows_boundRow, hn]
        linarith [hx.upper _ rfl hu]
  | shifted hl hu =>
      rw [if_pos hl] at hfirst
      have hn : y.getD next 0 = x - c.lower := hfirst Nat.one_pos
      refine ⟨?_, nofun⟩
      rw [Substitution.value_single, hn]
      ring
  | mirrored hl hu =>
      rw [if_neg hl, if_pos hu] at hfirst
      have hn : y.getD next 0 = c.upper - x := hfirst Nat.one_pos
      refine ⟨?_, nofun⟩
      rw [Substitution.value_single, hn]
      ring
  | free hl hu =>
      have hsecond := hy 1 Nat.one_lt_two
      rw [if_neg hl, if_neg hu] at hfirst hsecond
      have hn : y.getD next 0 = max x 0 := hfirst Nat.two_pos
      have hn' : y.getD (next + 1) 0 = max (-x) 0 := hsecond
      refine ⟨?_, nofun⟩
      rw [Substitution.value_pair, hn, hn', one_mul, neg_one_mul, zero_add, ← sub_eq_add_neg]
      exact max_zero_sub_max_neg_zero_eq_self x

end Column

namespace Model

variable {c : Column ℚ} {cs : List (Column ℚ)} {next j : ℕ}

/-- The first column of a variable. -/
def place (infinity : ℚ) (next : ℕ) (cs : List (Column ℚ)) (j : ℕ) : ℕ :=
  next + ((cs.take j).map (Column.width infinity)).sum

@[simp] theorem place_zero : place infinity next cs 0 = next := rfl

@[simp] theorem place_succ :
    place infinity next (c :: cs) (j + 1)
      = place infinity (next + c.width infinity) cs j := by
  simp [place, Nat.add_assoc]

theorem getElem?_substitutionsFrom (next : ℕ) (cs : List (Column ℚ)) (j : ℕ) :
    (substitutionsFrom infinity next cs)[j]?
      = cs[j]?.map fun c => c.substitution infinity (place infinity next cs j) := by
  induction cs generalizing next j with
  | nil => rfl
  | cons c cs ih =>
      rw [substitutionsFrom, Column.length_parts]
      cases j with
      | zero => rfl
      | succ j => rw [List.getElem?_cons_succ, List.getElem?_cons_succ, ih, place_succ]

theorem length_substitutionsFrom {α : Type} [Scalar α] {infinity : α} (next : ℕ)
    (cs : List (Column α)) :
    (substitutionsFrom infinity next cs).length = cs.length := by
  induction cs generalizing next with
  | nil => rfl
  | cons c cs ih => rw [substitutionsFrom, List.length_cons, ih, List.length_cons]

/-- The columns of all variables end where those of a variable after the last would start. -/
theorem foldr_length_parts (next : ℕ) (cs : List (Column ℚ)) :
    next + (substitutionsFrom infinity next cs).foldr (fun s n => s.parts.length + n) 0
      = place infinity next cs cs.length := by
  induction cs generalizing next with
  | nil => rfl
  | cons c cs ih =>
      rw [List.length_cons, place_succ, ← ih, substitutionsFrom, Column.length_parts,
        List.foldr_cons, Column.length_parts, Nat.add_assoc]

theorem place_add_width_le (infinity : ℚ) (next : ℕ) {k : ℕ} (hc : cs[j]? = some c)
    (hjk : j < k) :
    place infinity next cs j + c.width infinity ≤ place infinity next cs k := by
  obtain ⟨hj, rfl⟩ := List.getElem?_eq_some_iff.mp hc
  have hsucc : ((cs.take (j + 1)).map (Column.width infinity)).sum
      = ((cs.take j).map (Column.width infinity)).sum + (cs[j]).width infinity := by
    rw [List.take_succ_eq_append_getElem hj, List.map_append, List.sum_append]
    simp
  have hmono : ((cs.take (j + 1)).map (Column.width infinity)).sum
      ≤ ((cs.take k).map (Column.width infinity)).sum :=
    ((List.take_sublist_take_left hjk).map _).sum_le_sum fun _ _ => Nat.zero_le _
  simp only [place]
  omega

theorem mem_boundRowsFrom {p : Pending ℚ} :
    p ∈ boundRowsFrom infinity next cs
      ↔ ∃ (j : ℕ) (c : Column ℚ), cs[j]? = some c ∧
          c.boundRow? infinity (place infinity next cs j) = some p := by
  induction cs generalizing next with
  | nil => simp [boundRowsFrom]
  | cons c cs ih =>
      rw [boundRowsFrom, List.mem_append, Option.mem_toList, Column.length_parts, ih]
      constructor
      · rintro (h | ⟨j, d, hd, h⟩)
        · exact ⟨0, c, rfl, h⟩
        · exact ⟨j + 1, d, hd, by rwa [place_succ]⟩
      · rintro ⟨j, d, hd, h⟩
        cases j with
        | zero =>
            obtain rfl : c = d := by simpa using hd
            exact Or.inl h
        | succ j => exact Or.inr ⟨j, d, hd, by rwa [place_succ] at h⟩

theorem row_boundRowsFrom {α : Type} [Scalar α] (infinity : α) (next : ℕ) (cs : List (Column α)) :
    ∀ p ∈ boundRowsFrom infinity next cs, p.row = none := by
  induction cs generalizing next with
  | nil => exact nofun
  | cons c cs ih =>
      intro p hp
      rcases List.mem_append.mp hp with hp | hp
      · exact Column.row_boundRow? (Option.mem_toList.mp hp)
      · exact ih _ p hp

def splitAll (infinity : ℚ) : List (Column ℚ) → List ℚ → List ℚ
  | c :: cs, x :: xs => c.split infinity x ++ splitAll infinity cs xs
  | _, _ => []

theorem length_splitAll {cs : List (Column ℚ)} {xs : List ℚ} (h : xs.length = cs.length) :
    (splitAll infinity cs xs).length = place infinity 0 cs cs.length := by
  induction cs generalizing xs with
  | nil =>
      cases xs with
      | nil => rfl
      | cons x xs => simp at h
  | cons c cs ih =>
      cases xs with
      | nil => simp at h
      | cons x xs =>
          rw [splitAll, List.length_append, ih (by simpa using h), Column.length_split]
          simp [place]

theorem getD_splitAll {xs : List ℚ} (h : xs.length = cs.length) (hc : cs[j]? = some c) {i : ℕ}
    (hi : i < c.width infinity) :
    (splitAll infinity cs xs).getD (place infinity 0 cs j + i) 0
      = (c.split infinity (xs.getD j 0)).getD i 0 := by
  induction cs generalizing xs j with
  | nil => simp at hc
  | cons d cs ih =>
      cases xs with
      | nil => simp at h
      | cons x xs =>
          rw [splitAll]
          cases j with
          | zero =>
              obtain rfl : d = c := by simpa using hc
              rw [place_zero, Nat.zero_add, List.getD_cons_zero]
              exact List.getD_append _ _ _ _ (hi.trans_eq (Column.length_split x).symm)
          | succ j =>
              have hplace : place infinity 0 (d :: cs) (j + 1) + i
                  = (d.split infinity x).length + (place infinity 0 cs j + i) := by
                simp [place, Column.length_split, Nat.add_assoc]
              rw [hplace, List.getD_append_right _ _ _ _ (Nat.le_add_right _ _),
                Nat.add_sub_cancel_left, List.getD_cons_succ]
              exact ih (by simpa using h) (by simpa using hc)

theorem splitAll_nonneg {xs : List ℚ}
    (h : ∀ (j : ℕ) (c : Column ℚ), cs[j]? = some c →
      c.limits.Respects infinity (xs.getD j 0)) :
    ∀ v ∈ splitAll infinity cs xs, 0 ≤ v := by
  induction cs generalizing xs with
  | nil => simp [splitAll]
  | cons c cs ih =>
      cases xs with
      | nil => simp [splitAll]
      | cons x xs =>
          intro v hv
          rcases List.mem_append.mp hv with hv | hv
          · exact Column.split_nonneg (h 0 c rfl) v hv
          · exact ih (fun j d hd => h (j + 1) d hd) v hv

end Model
end LinProg
