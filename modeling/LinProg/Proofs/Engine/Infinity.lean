/-
What raising infinity leaves alone.

Infinity is a size, and from it on bounds and limits of rows count as
infinite.  When it is set anew, a bound that is infinite outward is moved
along with it.  Nothing else is moved: a bound that is infinite inward and
the limits of the rows stay the numbers they are, and one that is smaller
than the new infinity is a finite limit from then on.  So the standard form
stays the same just if nothing of that kind becomes finite.
-/
import LinProg.Proofs.Engine.Bounds

namespace LinProg

open Scalar.Ranked

variable {α : Type} [Scalar α] {old new : α}

/-! ## Limits of rows -/

namespace Limits

/-- Whether the ends that count as infinite do so for another infinity. -/
structure StaysInfinite (old new : α) (l : Limits α) : Prop where
  lower : ∀ a, l.lower = some a → Scalar.isInfinite old a = true → Scalar.isInfinite new a = true
  upper : ∀ b, l.upper = some b → Scalar.isInfinite old b = true → Scalar.isInfinite new b = true

instance (old new : α) (l : Limits α) : Decidable (l.StaysInfinite old new) :=
  decidable_of_iff
    ((∀ a ∈ l.lower, Scalar.isInfinite old a = true → Scalar.isInfinite new a = true) ∧
      ∀ b ∈ l.upper, Scalar.isInfinite old b = true → Scalar.isInfinite new b = true)
    ⟨fun ⟨hlower, hupper⟩ => ⟨hlower, hupper⟩, fun h => ⟨h.lower, h.upper⟩⟩

variable {l : Limits α}

theorem ends_of_point? {a : α} (h : l.point? = some a) :
    l.lower = some a ∧ ∃ b, l.upper = some b ∧ (a == b) = true := by
  rw [point?] at h
  split at h
  · rename_i a' b hl hu
    obtain ⟨heq, ha⟩ := Option.ite_none_right_eq_some.mp h
    obtain rfl := Option.some.inj ha
    exact ⟨hl, b, hu, heq⟩
  · cases h

theorem isInfinite_of_length_filter_eq {side : Option α}
    (h : (side.filter fun a => !Scalar.isInfinite old a).toList.length
      = (side.filter fun a => !Scalar.isInfinite new a).toList.length) {a : α}
    (ha : side = some a) (hold : Scalar.isInfinite old a = true) :
    Scalar.isInfinite new a = true := by
  subst ha
  rw [Option.filter_some, Option.filter_some, hold] at h
  by_contra hnew
  rw [Bool.not_eq_true] at hnew
  rw [hnew] at h
  cases h

variable [Scalar.Ranked α]

theorem filter_isInfinite_eq (hle : old ≤ new) {side : Option α}
    (h : ∀ a, side = some a → Scalar.isInfinite old a = true → Scalar.isInfinite new a = true) :
    (side.filter fun a => !Scalar.isInfinite new a)
      = side.filter fun a => !Scalar.isInfinite old a := by
  cases side with
  | none => rfl
  | some a =>
      have heq : Scalar.isInfinite new a = Scalar.isInfinite old a :=
        Bool.eq_iff_iff.mpr ⟨isInfinite_of_le hle, h a rfl⟩
      rw [Option.filter_some, Option.filter_some, heq]

theorem StaysInfinite.unmeetable_eq (h : l.StaysInfinite old new) (hle : old ≤ new) :
    l.unmeetable new = l.unmeetable old := by
  have heq : ∀ a, l.lower = some a → Scalar.isInfinite new a = Scalar.isInfinite old a :=
    fun a ha => Bool.eq_iff_iff.mpr ⟨isInfinite_of_le hle, h.lower a ha⟩
  have heq' : ∀ b, l.upper = some b → Scalar.isInfinite new b = Scalar.isInfinite old b :=
    fun b hb => Bool.eq_iff_iff.mpr ⟨isInfinite_of_le hle, h.upper b hb⟩
  rw [unmeetable, unmeetable]
  cases hp : l.point? with
  | some a => exact heq a (ends_of_point? hp).1
  | none =>
      refine congrArg₂ or ?_ ?_
      · cases hl : l.lower with
        | none => rfl
        | some a => rw [Option.any_some, Option.any_some, heq a hl]
      · cases hu : l.upper with
        | none => rfl
        | some b => rw [Option.any_some, Option.any_some, heq' b hu]

theorem length_filter_isInfinite_le (hle : old ≤ new) (side : Option α) :
    (side.filter fun a => !Scalar.isInfinite old a).toList.length
      ≤ (side.filter fun a => !Scalar.isInfinite new a).toList.length := by
  cases side with
  | none => exact le_rfl
  | some a =>
      rw [Option.filter_some, Option.filter_some]
      cases hnew : Scalar.isInfinite new a with
      | true =>
          rw [isInfinite_of_le hle hnew]
      | false => cases Scalar.isInfinite old a <;> simp

theorem count_le (hle : old ≤ new) (l : Limits α) : l.count old ≤ l.count new := by
  rw [count, count]
  cases l.point? with
  | some a => exact le_rfl
  | none =>
      exact Nat.add_le_add (length_filter_isInfinite_le hle l.lower)
        (length_filter_isInfinite_le hle l.upper)

/-- With as many equations as before, a row that can be met has lost none of its infinite ends. -/
theorem staysInfinite_of_count_eq (hle : old ≤ new) (hmeet : l.unmeetable old = false)
    (h : l.count old = l.count new) : l.StaysInfinite old new := by
  rw [count, count] at h
  rw [unmeetable] at hmeet
  cases hp : l.point? with
  | some a =>
      rw [hp] at hmeet
      obtain ⟨hl, b, hu, hab⟩ := ends_of_point? hp
      have hmeet : Scalar.isInfinite old a = false := hmeet
      constructor
      · intro a' ha' hinf
        obtain rfl := Option.some.inj (hl.symm.trans ha')
        rw [hmeet] at hinf
        cases hinf
      · intro b' hb' hinf
        obtain rfl := Option.some.inj (hu.symm.trans hb')
        rw [isInfinite_of_beq hab] at hmeet
        rw [hmeet] at hinf
        cases hinf
  | none =>
      rw [hp] at h
      have hlower := length_filter_isInfinite_le hle l.lower
      have hupper := length_filter_isInfinite_le hle l.upper
      simp only [finiteLower?, finiteUpper?] at h
      exact ⟨fun a ha => isInfinite_of_length_filter_eq (by omega) ha,
        fun b hb => isInfinite_of_length_filter_eq (by omega) hb⟩

end Limits

namespace Row

variable {r : Row α} {subs : List (Substitution α)} {index : ℕ}

theorem of_pending?_ok {infinity : α} {qs : List (Pending α)}
    (h : r.pending? infinity subs index = .ok qs) :
    r.limits.unmeetable infinity = false ∧ qs = r.pending infinity subs index := by
  rw [pending?] at h
  split at h
  · cases h
  · split at h
    · cases h
    · rename_i hmeet
      exact ⟨Bool.not_eq_true _ ▸ hmeet, (Except.ok.inj h).symm⟩

theorem pending?_eq_of_staysInfinite [Scalar.Ranked α] (hle : old ≤ new)
    (h : r.limits.StaysInfinite old new) :
    r.pending? new subs index = r.pending? old subs index := by
  have hlower : r.limits.finiteLower? new = r.limits.finiteLower? old :=
    Limits.filter_isInfinite_eq hle h.lower
  have hupper : r.limits.finiteUpper? new = r.limits.finiteUpper? old :=
    Limits.filter_isInfinite_eq hle h.upper
  rw [pending?, pending?, pending, pending, hlower, hupper, h.unmeetable_eq hle]

end Row

/-! ## Bounds of columns -/

namespace Column

/-- Whether a bound that is infinite inward is so for another infinity. -/
structure StaysInfinite (old new : α) (c : Column α) : Prop where
  lower : old ≤ c.lower → new ≤ c.lower
  upper : c.upper ≤ -old → c.upper ≤ -new

instance (old new : α) (c : Column α) : Decidable (c.StaysInfinite old new) :=
  decidable_of_iff ((old ≤ c.lower → new ≤ c.lower) ∧ (c.upper ≤ -old → c.upper ≤ -new))
    ⟨fun ⟨hlower, hupper⟩ => ⟨hlower, hupper⟩, fun h => ⟨h.lower, h.upper⟩⟩

variable {c : Column α} {next : ℕ}

def infinite (infinity : α) (c : Column α) : Bool × Bool :=
  (Scalar.isInfinite infinity c.lower, Scalar.isInfinite infinity c.upper)

def parts (infinity : α) (c : Column α) : ℕ :=
  if (c.infinite infinity).1 && (c.infinite infinity).2 then 2 else 1

/-- The number of bound rows that a variable has. -/
def boundRows (infinity : α) (c : Column α) : ℕ :=
  if !(c.infinite infinity).1 && !(c.infinite infinity).2 then 1 else 0

theorem length_substitution (infinity : α) :
    (c.substitution infinity next).parts.length = c.parts infinity := by
  rw [substitution, parts, infinite]
  cases Scalar.isInfinite infinity c.lower with
  | false => rfl
  | true =>
      cases Scalar.isInfinite infinity c.upper with
      | false => rfl
      | true => rfl

theorem length_boundRow? (infinity : α) :
    (c.boundRow? infinity next).toList.length = c.boundRows infinity := by
  rw [boundRow?, boundRows, infinite]
  cases Scalar.isInfinite infinity c.lower with
  | true => rfl
  | false =>
      cases Scalar.isInfinite infinity c.upper with
      | true => rfl
      | false => rfl

variable [Scalar.Ranked α]

theorem isInfinite_lower_moveInfinity (hpos : 0 < new) (hle : old ≤ new) :
    Scalar.isInfinite new (Engine.moveInfinity old new c).lower = true
      ↔ new ≤ c.lower ∨ c.lower ≤ -old := by
  rw [isInfinite_iff, Engine.moveInfinity]
  by_cases hlower : c.lower ≤ -old
  · simp only [if_pos hlower]
    exact iff_of_true (Or.inr (Scalar.Ranked.neg_le_neg (le_self_of_pos hpos))) (Or.inr hlower)
  · simp only [if_neg hlower]
    have hnew : ¬ c.lower ≤ -new := fun h =>
      hlower (Scalar.Ranked.le_trans h (Scalar.Ranked.neg_le_neg hle))
    simp only [hnew, hlower]

theorem isInfinite_upper_moveInfinity (hpos : 0 < new) (hle : old ≤ new) :
    Scalar.isInfinite new (Engine.moveInfinity old new c).upper = true
      ↔ old ≤ c.upper ∨ c.upper ≤ -new := by
  rw [isInfinite_iff, Engine.moveInfinity]
  by_cases hupper : old ≤ c.upper
  · simp only [if_pos hupper]
    exact iff_of_true (Or.inl (le_self_of_pos hpos)) (Or.inl hupper)
  · simp only [if_neg hupper]
    have hnew : ¬ new ≤ c.upper := fun h => hupper (Scalar.Ranked.le_trans hle h)
    simp only [hnew, hupper]

theorem new_pos (hpos : 0 < old) (hle : old ≤ new) : 0 < new := by
  obtain ⟨i, hi, hipos⟩ := rank?_of_pos hpos
  obtain ⟨i', hi', n, hn, hin⟩ := (le_iff _ _).mp hle
  obtain rfl : i = i' := Option.some.inj (hi.symm.trans hi')
  exact (lt_iff_of_rank rank?_zero hn).mpr (by linarith)

/-- The same bounds are infinite after the move just if those that are infinite inward stay so. -/
theorem infinite_moveInfinity_eq_iff (hpos : 0 < old) (hle : old ≤ new) :
    (Engine.moveInfinity old new c).infinite new = c.infinite old ↔ c.StaysInfinite old new := by
  have hnew := new_pos hpos hle
  rw [infinite, infinite, Prod.mk.injEq]
  refine (and_congr Bool.eq_iff_iff Bool.eq_iff_iff).trans ?_
  rw [isInfinite_lower_moveInfinity hnew hle, isInfinite_upper_moveInfinity hnew hle,
    isInfinite_iff, isInfinite_iff]
  constructor
  · rintro ⟨hlower, hupper⟩
    refine ⟨fun h => ?_, fun h => ?_⟩
    · exact (hlower.mpr (Or.inl h)).resolve_right (not_le_neg_of_le hpos h)
    · exact (hupper.mpr (Or.inr h)).resolve_left fun h' => not_le_neg_of_le hpos h' h
  · rintro ⟨hlower, hupper⟩
    exact ⟨or_congr_left ⟨Scalar.Ranked.le_trans hle, hlower⟩,
      or_congr_right ⟨fun h => Scalar.Ranked.le_trans h (Scalar.Ranked.neg_le_neg hle), hupper⟩⟩

theorem lower_moveInfinity (h : Scalar.isInfinite old c.lower = false) :
    (Engine.moveInfinity old new c).lower = c.lower := by
  refine if_neg fun hlower => ?_
  rw [isInfinite_iff.mpr (Or.inr hlower)] at h
  cases h

theorem upper_moveInfinity (h : Scalar.isInfinite old c.upper = false) :
    (Engine.moveInfinity old new c).upper = c.upper := by
  refine if_neg fun hupper => ?_
  rw [isInfinite_iff.mpr (Or.inl hupper)] at h
  cases h

/-- A variable is made of the same columns after the move, with the same bound row. -/
theorem StaysInfinite.same (h : c.StaysInfinite old new) (hpos : 0 < old) (hle : old ≤ new)
    (next : ℕ) :
    (Engine.moveInfinity old new c).substitution new next = c.substitution old next ∧
      (Engine.moveInfinity old new c).boundRow? new next = c.boundRow? old next := by
  obtain ⟨hlower, hupper⟩ := Prod.mk.inj ((infinite_moveInfinity_eq_iff hpos hle).mpr h)
  rw [substitution, substitution, boundRow?, boundRow?, hlower, hupper]
  cases hl : Scalar.isInfinite old c.lower with
  | true =>
      cases hu : Scalar.isInfinite old c.upper with
      | true => exact ⟨rfl, rfl⟩
      | false =>
          rw [upper_moveInfinity hu]
          exact ⟨rfl, rfl⟩
  | false =>
      cases hu : Scalar.isInfinite old c.upper with
      | true =>
          rw [lower_moveInfinity hl]
          exact ⟨rfl, rfl⟩
      | false =>
          rw [lower_moveInfinity hl, upper_moveInfinity hu]
          exact ⟨rfl, rfl⟩

theorem infinite_of_moveInfinity (hpos : 0 < old) (hle : old ≤ new) :
    (((Engine.moveInfinity old new c).infinite new).1 = true → (c.infinite old).1 = true) ∧
      (((Engine.moveInfinity old new c).infinite new).2 = true → (c.infinite old).2 = true) := by
  have hnew := new_pos hpos hle
  simp only [infinite, isInfinite_lower_moveInfinity hnew hle,
    isInfinite_upper_moveInfinity hnew hle, isInfinite_iff]
  exact ⟨Or.imp_left (Scalar.Ranked.le_trans hle),
    Or.imp_right fun h => Scalar.Ranked.le_trans h (Scalar.Ranked.neg_le_neg hle)⟩

theorem boundRows_moveInfinity_le (hpos : 0 < old) (hle : old ≤ new) :
    c.boundRows old ≤ (Engine.moveInfinity old new c).boundRows new := by
  have hmono := infinite_of_moveInfinity (c := c) hpos hle
  rw [boundRows, boundRows]
  generalize c.infinite old = a at hmono ⊢
  generalize (Engine.moveInfinity old new c).infinite new = b at hmono ⊢
  revert a b
  decide

theorem staysInfinite_of_lengths (hpos : 0 < old) (hle : old ≤ new)
    (hparts : c.parts old = (Engine.moveInfinity old new c).parts new)
    (hbounds : c.boundRows old = (Engine.moveInfinity old new c).boundRows new) :
    c.StaysInfinite old new := by
  have hmono := infinite_of_moveInfinity (c := c) hpos hle
  rw [← infinite_moveInfinity_eq_iff hpos hle]
  rw [boundRows, boundRows] at hbounds
  rw [parts, parts] at hparts
  generalize c.infinite old = a at hmono hparts hbounds ⊢
  generalize (Engine.moveInfinity old new c).infinite new = b at hmono hparts hbounds ⊢
  revert a b
  decide

end Column

/-! ## Standard forms -/

namespace Model

variable {m : Model α} {subs : List (Substitution α)} {f : StandardForm α} {index next : ℕ}

/-- A model whose bounds are moved along with infinity. -/
def moveInfinity (old new : α) (m : Model α) : Model α :=
  { m with columns := m.columns.map (Engine.moveInfinity old new) }

/-- Whether raising infinity makes none of the infinite bounds and limits finite. -/
structure StaysInfinite (old new : α) (m : Model α) : Prop where
  columns : ∀ c ∈ m.columns, c.StaysInfinite old new
  rows : ∀ r ∈ m.rows, r.limits.StaysInfinite old new

instance (old new : α) (m : Model α) : Decidable (m.StaysInfinite old new) :=
  decidable_of_iff
    ((∀ c ∈ m.columns, c.StaysInfinite old new) ∧ ∀ r ∈ m.rows, r.limits.StaysInfinite old new)
    ⟨fun ⟨hcolumns, hrows⟩ => ⟨hcolumns, hrows⟩, fun h => ⟨h.columns, h.rows⟩⟩

/-! ### Counting equations

Raising infinity takes no equation away, so where as many are left as before each column and each
row has as many as before, and the infinite ones among their bounds and limits can be told. -/

theorem map_length_substitutionsFrom (infinity : α) (next : ℕ) (cs : List (Column α)) :
    (substitutionsFrom infinity next cs).map (fun s => s.parts.length)
      = cs.map fun c => c.parts infinity := by
  induction cs generalizing next with
  | nil => rfl
  | cons c cs ih =>
      rw [substitutionsFrom, List.map_cons, List.map_cons, ih, Column.length_substitution]

theorem length_boundRowsFrom (infinity : α) (next : ℕ) (cs : List (Column α)) :
    (boundRowsFrom infinity next cs).length = (cs.map fun c => c.boundRows infinity).sum := by
  induction cs generalizing next with
  | nil => rfl
  | cons c cs ih =>
      rw [boundRowsFrom, List.length_append, ih, Column.length_boundRow?]
      rfl

theorem of_rowsFrom?_eq_ok {infinity : α} {rows : List (Row α)} {ps : List (Pending α)}
    (h : rowsFrom? infinity subs index rows = .ok ps) :
    (∀ r ∈ rows, r.limits.unmeetable infinity = false) ∧
      ps.length = (rows.map fun r => r.limits.count infinity).sum := by
  induction rows generalizing index ps with
  | nil =>
      obtain rfl := Except.ok.inj h
      exact ⟨nofun, rfl⟩
  | cons r rows ih =>
      rw [rowsFrom?] at h
      cases hfirst : r.pending? infinity subs index with
      | error o =>
          rw [hfirst] at h
          cases h
      | ok qs =>
          rw [hfirst] at h
          cases hrest : rowsFrom? infinity subs (index + 1) rows with
          | error o =>
              rw [hrest] at h
              cases h
          | ok rest =>
              rw [hrest] at h
              obtain rfl := Except.ok.inj h
              obtain ⟨hmeet, rfl⟩ := Row.of_pending?_ok hfirst
              obtain ⟨hmeets, hlength⟩ := ih hrest
              refine ⟨List.forall_mem_cons.mpr ⟨hmeet, hmeets⟩, ?_⟩
              rw [List.length_append, Row.length_pending, hlength]
              rfl

theorem counts_of_standardForm {infinity : α} (h : m.standardForm infinity = .ok f) :
    (∀ r ∈ m.rows, r.limits.unmeetable infinity = false) ∧
      f.substitutions.map (fun s => s.parts.length) = (m.columns.map fun c => c.parts infinity) ∧
      f.equations.length = (m.columns.map fun c => c.boundRows infinity).sum
        + (m.rows.map fun r => r.limits.count infinity).sum := by
  rw [standardForm] at h
  simp only at h
  split at h
  · cases h
  · rename_i ps hps
    split at h
    · cases h
    · obtain rfl := Except.ok.inj h
      obtain ⟨hmeet, hlength⟩ := of_rowsFrom?_eq_ok hps
      refine ⟨hmeet, map_length_substitutionsFrom infinity 0 m.columns, ?_⟩
      simp only [Pending.length_equations, List.length_append, length_boundRowsFrom, hlength]

omit [Scalar α] in
theorem eq_of_sum_map_eq {β : Type} {g h : β → ℕ} {xs : List β} (hle : ∀ x ∈ xs, g x ≤ h x)
    (heq : (xs.map g).sum = (xs.map h).sum) : ∀ x ∈ xs, g x = h x := by
  intro x hx
  by_contra hne
  exact (List.sum_lt_sum g h hle ⟨x, hx, lt_of_le_of_ne (hle x hx) hne⟩).ne heq

/-! ### Raising infinity -/

variable [Scalar.Ranked α]

theorem substitutionsFrom_moveInfinity (hpos : 0 < old) (hle : old ≤ new) {cs : List (Column α)}
    (h : ∀ c ∈ cs, c.StaysInfinite old new) :
    substitutionsFrom new next (cs.map (Engine.moveInfinity old new))
      = substitutionsFrom old next cs := by
  induction cs generalizing next with
  | nil => rfl
  | cons c cs ih =>
      obtain ⟨hc, hcs⟩ := List.forall_mem_cons.mp h
      rw [List.map_cons, substitutionsFrom, substitutionsFrom, (hc.same hpos hle next).1, ih hcs]

theorem boundRowsFrom_moveInfinity (hpos : 0 < old) (hle : old ≤ new) {cs : List (Column α)}
    (h : ∀ c ∈ cs, c.StaysInfinite old new) :
    boundRowsFrom new next (cs.map (Engine.moveInfinity old new)) = boundRowsFrom old next cs := by
  induction cs generalizing next with
  | nil => rfl
  | cons c cs ih =>
      obtain ⟨hc, hcs⟩ := List.forall_mem_cons.mp h
      rw [List.map_cons, boundRowsFrom, boundRowsFrom, (hc.same hpos hle next).1,
        (hc.same hpos hle next).2, ih hcs]

theorem rowsFrom?_of_staysInfinite (hle : old ≤ new) {rows : List (Row α)}
    (h : ∀ r ∈ rows, r.limits.StaysInfinite old new) :
    rowsFrom? new subs index rows = rowsFrom? old subs index rows := by
  induction rows generalizing index with
  | nil => rfl
  | cons r rows ih =>
      obtain ⟨hr, hrows⟩ := List.forall_mem_cons.mp h
      rw [rowsFrom?, rowsFrom?, Row.pending?_eq_of_staysInfinite hle hr, ih hrows]

/-- Where nothing becomes finite the standard form stays the same, or what is in its way does. -/
theorem StaysInfinite.standardForm_eq (h : m.StaysInfinite old new) (hpos : 0 < old)
    (hle : old ≤ new) : (m.moveInfinity old new).standardForm new = m.standardForm old := by
  simp only [standardForm, moveInfinity, substitutionsFrom_moveInfinity hpos hle h.columns,
    boundRowsFrom_moveInfinity hpos hle h.columns, rowsFrom?_of_staysInfinite hle h.rows]
  rfl

/-- Where the standard form stays the same nothing has become finite. -/
theorem staysInfinite_of_standardForm_eq (hpos : 0 < old) (hle : old ≤ new)
    (hok : m.standardForm old = .ok f) (hsame : (m.moveInfinity old new).standardForm new = .ok f) :
    m.StaysInfinite old new := by
  obtain ⟨hmeet, hparts, hlength⟩ := counts_of_standardForm hok
  obtain ⟨-, hparts', hlength'⟩ := counts_of_standardForm hsame
  have hbounds : ∀ c ∈ m.columns,
      c.boundRows old ≤ (Engine.moveInfinity old new c).boundRows new := fun c _ =>
    Column.boundRows_moveInfinity_le hpos hle
  have hcounts : ∀ r ∈ m.rows, r.limits.count old ≤ r.limits.count new := fun r _ =>
    r.limits.count_le hle
  have htotal : (m.columns.map fun c => c.boundRows old).sum
        + (m.rows.map fun r => r.limits.count old).sum
      = (m.columns.map fun c => (Engine.moveInfinity old new c).boundRows new).sum
        + (m.rows.map fun r => r.limits.count new).sum := by
    rw [← hlength, hlength', moveInfinity, List.map_map]
    rfl
  have hbounds_le : (m.columns.map fun c => c.boundRows old).sum
      ≤ (m.columns.map fun c => (Engine.moveInfinity old new c).boundRows new).sum :=
    List.sum_le_sum hbounds
  have hcounts_le : (m.rows.map fun r => r.limits.count old).sum
      ≤ (m.rows.map fun r => r.limits.count new).sum := List.sum_le_sum hcounts
  have hbounds_eq := eq_of_sum_map_eq hbounds
    (hbounds_le.antisymm (by omega))
  have hcounts_eq := eq_of_sum_map_eq hcounts
    (hcounts_le.antisymm (by omega))
  rw [moveInfinity, List.map_map] at hparts'
  have hparts_eq := List.map_inj_left.mp (hparts.symm.trans hparts')
  refine ⟨fun c hc => ?_, fun r hr => ?_⟩
  · exact Column.staysInfinite_of_lengths hpos hle (hparts_eq c hc) (hbounds_eq c hc)
  · exact Limits.staysInfinite_of_count_eq hle (hmeet r hr) (hcounts_eq r hr)

end Model

/-! ## Engines -/

namespace Engine

variable [Scalar.Ranked α] {e e' : Engine α}

/-- For an engine with a positive infinity and one that is at least as large, however it is set: the
standard form stays the same, and so does what is in its way, if no bound and no limit of a row
that is infinite becomes finite; and a standard form stays the same in no other case. -/
theorem standardForm_raised (hpos : 0 < e.config.infinity) (hle : e.config.infinity ≤ new)
    (hset : e' = e.setInfinity new ∨ ∃ config, config.infinity = new ∧ e' = e.setConfig config) :
    (e.model.StaysInfinite e.config.infinity new →
        e'.model.standardForm e'.config.infinity = e.model.standardForm e.config.infinity) ∧
      ∀ f, e.model.standardForm e.config.infinity = .ok f →
        e'.model.standardForm e'.config.infinity = .ok f →
        e.model.StaysInfinite e.config.infinity new := by
  have hmodel : e'.model = e.model.moveInfinity e.config.infinity new ∧
      e'.config.infinity = new := by
    rcases hset with rfl | ⟨config, rfl, rfl⟩
    · exact ⟨rfl, rfl⟩
    · exact ⟨rfl, rfl⟩
  rw [hmodel.1, hmodel.2]
  exact ⟨fun h => h.standardForm_eq hpos hle, fun f hok hsame =>
    Model.staysInfinite_of_standardForm_eq hpos hle hok hsame⟩

/-- A free column and a row `x ≤ 5`, and another row that has no finite limit. -/
def lasting : Engine Float :=
  (create 0 1 Config.standard).performAll
    [.setUnbounded 1, .appendConstraintDense [1] .less 5, .appendConstraintDense [-1] .less 1e40]

theorem standardForm_raised_lasting :
    0 < lasting.config.infinity ∧ lasting.config.infinity ≤ 1e35 ∧
      lasting.model.StaysInfinite lasting.config.infinity 1e35 ∧
      (lasting.setInfinity 1e35).model.standardForm (lasting.setInfinity 1e35).config.infinity
        = lasting.model.standardForm lasting.config.infinity := by
  have hpos : 0 < lasting.config.infinity := by decide +kernel
  have hle : lasting.config.infinity ≤ 1e35 := by decide +kernel
  have hstays : lasting.model.StaysInfinite lasting.config.infinity 1e35 := by decide +kernel
  exact ⟨hpos, hle, hstays, (standardForm_raised hpos hle (Or.inl rfl)).1 hstays⟩

/-- A row `x ≤ 10 ^ 30` has no equation, and a row `x ≥ 10 ^ 30` cannot be met, while infinity is
`10 ^ 30`.  With an infinity ten times as large both of them have one equation. -/
theorem limits_become_finite :
    let equations (e : Engine Float) :=
      (e.model.standardForm e.config.infinity).toOption.map fun f => f.equations.length
    let above := (create 0 1 Config.standard).performAll [.appendConstraintDense [1] .less 1e30]
    let below := (create 0 1 Config.standard).performAll [.appendConstraintDense [1] .greater 1e30]
    equations above = some 0 ∧ equations (above.setInfinity 1e31) = some 1 ∧
      equations (above.setConfig { above.config with infinity := 1e31 }) = some 1 ∧
      equations below = none ∧ equations (below.setInfinity 1e31) = some 1 := by
  decide +kernel

end Engine
end LinProg
