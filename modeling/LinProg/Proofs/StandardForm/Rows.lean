/-
The rows of a model after substitution.

A row is a sum over variables; in terms of the columns it is a sum as well,
and a shift that is due to the offsets.  So a limit on the row is a limit
on the columns, and the equations of a row allow just the columns for which
it keeps to its limits.
-/
import LinProg.Proofs.StandardForm.Variables

namespace LinProg

variable {infinity : ℚ} {subs : List (Substitution ℚ)}

/-! ## Substitution -/

namespace Sparse

/-- Entries by variable, in terms of the columns. -/
def substitute (subs : List (Substitution ℚ)) (v : Sparse ℚ) : Sparse ℚ :=
  v.flatMap fun (j, x) => (subs.getD j ⟨0, []⟩).parts.map fun (k, sign) => (k, sign * x)

/-- What the offsets of the variables contribute. -/
def shift (subs : List (Substitution ℚ)) (v : Sparse ℚ) : ℚ :=
  (v.map fun e => e.2 * (subs.getD e.1 ⟨0, []⟩).offset).sum

theorem substitute_cons (e : ℕ × ℚ) (v : Sparse ℚ) :
    substitute subs (e :: v)
      = (subs.getD e.1 ⟨0, []⟩).parts.map (fun (k, sign) => (k, sign * e.2))
        ++ substitute subs v := List.flatMap_cons

theorem shift_cons (e : ℕ × ℚ) (v : Sparse ℚ) :
    shift subs (e :: v) = e.2 * (subs.getD e.1 ⟨0, []⟩).offset + shift subs v := rfl

theorem scale_right (x : ℚ) (v : Sparse ℚ) :
    v.map (fun (k, sign) => (k, sign * x)) = v.map fun e => (e.1, x * e.2) :=
  List.map_congr_left fun e _ => by rw [mul_comm]

/-- A sum over variables is a sum over columns after substitution. -/
theorem dot_point {v : Sparse ℚ} (hv : v.Within subs.length) (y : List ℚ) :
    v.dot (subs.map fun s => s.value y) = v.shift subs + (v.substitute subs).dot y := by
  induction v with
  | nil => simp [dot, shift, substitute]
  | cons e v ih =>
      have he : e.1 < subs.length := hv e List.mem_cons_self
      have hvalue : (subs.map fun s => s.value y).getD e.1 0
          = (subs.getD e.1 ⟨0, []⟩).value y := by
        rw [List.getD_eq_getElem _ _ (by simpa using he), List.getElem_map,
          List.getD_eq_getElem _ _ he]
      rw [dot_cons, ih fun e he => hv e (List.mem_cons_of_mem _ he), hvalue,
        Substitution.value_eq, substitute_cons, shift_cons, dot_append, scale_right, dot_scale]
      ring

theorem within_substitute {n : ℕ} (hsubs : ∀ s ∈ subs, Within n s.parts) (v : Sparse ℚ) :
    Within n (v.substitute subs) := by
  intro e he
  obtain ⟨⟨j, x⟩, -, he⟩ := List.mem_flatMap.mp he
  obtain ⟨⟨k, sign⟩, hk, rfl⟩ := List.mem_map.mp he
  rcases lt_or_ge j subs.length with hj | hj
  · rw [List.getD_eq_getElem _ _ hj] at hk
    exact hsubs _ (List.getElem_mem hj) (k, sign) hk
  · rw [List.getD_eq_default _ _ hj] at hk
    cases hk

end Sparse

/-! ## Rows -/

section Equations

variable {α : Type} [Scalar α]

/-- The number of equations of a row with such limits. -/
def Limits.count (infinity : α) (l : Limits α) : ℕ :=
  match l.point? with
  | some _ => 1
  | none => (l.finiteLower? infinity).toList.length + (l.finiteUpper? infinity).toList.length

theorem Row.length_pending {r : Row α} {subs : List (Substitution α)} {index : ℕ} (infinity : α) :
    (r.pending infinity subs index).length = r.limits.count infinity := by
  simp only [pending, Limits.count]
  cases r.limits.point? with
  | some b => rfl
  | none => rw [List.length_append, List.length_map, List.length_map]

/-- Every equation of a row has the coefficients of the row and belongs to it. -/
theorem Row.of_mem_pending {infinity : α} {r : Row α} {subs : List (Substitution α)} {index : ℕ}
    {p : Pending α} (hp : p ∈ r.pending infinity subs index) :
    p.coefficients = r.substituted subs ∧ p.row = some index := by
  rw [pending] at hp
  split at hp
  · rw [List.mem_singleton.mp hp]
    exact ⟨rfl, rfl⟩
  · rcases List.mem_append.mp hp with hp | hp
    · obtain ⟨a, -, rfl⟩ := List.mem_map.mp hp
      exact ⟨rfl, rfl⟩
    · obtain ⟨b, -, rfl⟩ := List.mem_map.mp hp
      exact ⟨rfl, rfl⟩

end Equations

namespace Row

variable {r : Row ℚ} {index : ℕ}

theorem shift_eq (subs : List (Substitution ℚ)) (r : Row ℚ) :
    r.shift subs = r.coefficients.shift subs := by
  rw [Row.shift, Scalar.sum_eq]
  rfl

/-- What a row becomes, or why it stands in the way. -/
theorem pending?_spec (infinity : ℚ) (subs : List (Substitution ℚ)) (index : ℕ) (r : Row ℚ) :
    match r.pending? infinity subs index with
    | .ok ps =>
        r.coefficients.Within subs.length ∧ r.limits.unmeetable infinity = false ∧
          ps = r.pending infinity subs index
    | .error (.unmeetable _) => r.limits.unmeetable infinity = true
    | .error (.strayColumn _) => ¬ r.coefficients.Within subs.length := by
  rw [pending?]
  cases hfind : r.coefficients.find? fun e => subs.length ≤ e.1 with
  | some e =>
      intro h
      rw [Sparse.find?_stray_eq_none.mpr h] at hfind
      cases hfind
  | none =>
      cases hmeet : r.limits.unmeetable infinity with
      | true => exact rfl
      | false => exact ⟨Sparse.find?_stray_eq_none.mp hfind, rfl, rfl⟩

def limitRow (subs : List (Substitution ℚ)) (index : ℕ) (r : Row ℚ) (limit : ℚ)
    (slack : Option ℚ) : Pending ℚ :=
  ⟨r.substituted subs, limit - r.shift subs, slack, some index⟩

/-- What the equations of a row are made from: the point that its limits leave, or its finite
limits. -/
theorem mem_pending {p : Pending ℚ} :
    p ∈ r.pending infinity subs index ↔
      (∃ b, r.limits.point? = some b ∧ p = r.limitRow subs index b none) ∨
      (r.limits.point? = none ∧ ∃ a, r.limits.finiteLower? infinity = some a ∧
        p = r.limitRow subs index a (some (-1))) ∨
      (r.limits.point? = none ∧ ∃ b, r.limits.finiteUpper? infinity = some b ∧
        p = r.limitRow subs index b (some 1)) := by
  rw [pending]
  cases r.limits.point? with
  | some b => simp [limitRow]
  | none => simp [limitRow, eq_comm]

/-- A limit that has no slack to it is both limits of the row. -/
theorem limit_of_mem_pending (hmeet : r.limits.Meetable infinity) {p : Pending ℚ}
    (hp : p ∈ r.pending infinity subs index) :
    ∃ limit slack, p = r.limitRow subs index limit slack ∧
      (slack ≠ some 1 → r.limits.finiteLower? infinity = some limit) ∧
      (slack ≠ some (-1) → r.limits.finiteUpper? infinity = some limit) := by
  rcases mem_pending.mp hp with ⟨a, ha, rfl⟩ | ⟨-, a, ha, rfl⟩ | ⟨-, a, ha, rfl⟩
  · obtain ⟨hlower, hupper⟩ := hmeet.finite_of_point ha
    exact ⟨a, none, rfl, fun _ => hlower, fun _ => hupper⟩
  · exact ⟨a, some (-1), rfl, fun _ => ha, fun h => absurd rfl h⟩
  · exact ⟨a, some 1, rfl, fun h => absurd rfl h, fun _ => ha⟩

variable {y : List ℚ} (hr : r.coefficients.Within subs.length)
include hr

theorem left_limitRow (limit : ℚ) (slack : Option ℚ) :
    (r.limitRow subs index limit slack).value
        - Sparse.dot (r.limitRow subs index limit slack).coefficients y
      = limit - r.coefficients.dot (subs.map fun s => s.value y) := by
  rw [Sparse.dot_point hr, ← shift_eq, ← sub_sub]
  rfl

theorem allows_limitRow_none (limit : ℚ) :
    (r.limitRow subs index limit none).Allows y
      ↔ r.coefficients.dot (subs.map fun s => s.value y) = limit := by
  rw [Pending.allows_iff_of_none rfl, eq_comm, ← sub_eq_zero, left_limitRow hr, sub_eq_zero,
    eq_comm]

theorem allows_limitRow_some (limit slack : ℚ) :
    (r.limitRow subs index limit (some slack)).Allows y
      ↔ 0 ≤ slack * (limit - r.coefficients.dot (subs.map fun s => s.value y)) := by
  rw [Pending.allows_iff_of_some rfl, left_limitRow hr]

/-- Columns that keep to the equations of a row up to a tolerance give the row a value within its
limits up to the tolerance. -/
theorem respectsWithin_dot {tolerance : ℚ}
    (h : ∀ p ∈ r.pending infinity subs index, p.AllowsWithin tolerance y) :
    r.limits.RespectsWithin tolerance infinity
      (r.coefficients.dot (subs.map fun s => s.value y)) := by
  cases hp : r.limits.point? with
  | some b =>
      have hb := (Pending.allowsWithin_iff_of_none rfl).mp
        (h _ (mem_pending.mpr (Or.inl ⟨b, hp, rfl⟩)))
      rw [left_limitRow hr] at hb
      obtain ⟨hlower, hupper⟩ := abs_le.mp hb
      obtain ⟨hl, hu⟩ := Limits.point?_eq_some.mp hp
      constructor
      · intro a ha _
        obtain rfl := Option.some.inj (ha.symm.trans hl)
        linarith
      · intro a ha _
        obtain rfl := Option.some.inj (ha.symm.trans hu)
        linarith
  | none =>
      constructor
      · intro a ha hfin
        have hmem : r.limitRow subs index a (some (-1)) ∈ r.pending infinity subs index :=
          mem_pending.mpr
            (Or.inr (Or.inl ⟨hp, a, Limits.finiteLower?_eq_some.mpr ⟨ha, hfin⟩, rfl⟩))
        have hleft := (Pending.allowsWithin_iff_of_some rfl).mp (h _ hmem)
        rw [left_limitRow hr] at hleft
        linarith
      · intro b hb hfin
        have hmem : r.limitRow subs index b (some 1) ∈ r.pending infinity subs index :=
          mem_pending.mpr
            (Or.inr (Or.inr ⟨hp, b, Limits.finiteUpper?_eq_some.mpr ⟨hb, hfin⟩, rfl⟩))
        have hleft := (Pending.allowsWithin_iff_of_some rfl).mp (h _ hmem)
        rw [left_limitRow hr] at hleft
        linarith

/-- The equations of a row allow just the columns for which it keeps to its finite limits. -/
theorem allows_pending_iff (hmeet : r.limits.Meetable infinity) :
    (∀ p ∈ r.pending infinity subs index, p.Allows y)
      ↔ r.limits.Respects infinity (r.coefficients.dot (subs.map fun s => s.value y)) := by
  constructor
  · intro h
    exact (respectsWithin_dot hr fun p hp =>
      Pending.allowsWithin_zero_iff.mpr (h p hp)).respects
  · intro h p hp
    have hlower : ∀ a, r.limits.finiteLower? infinity = some a →
        a ≤ r.coefficients.dot (subs.map fun s => s.value y) := by
      intro a ha
      obtain ⟨hl, hfin⟩ := Limits.finiteLower?_eq_some.mp ha
      exact h.lower a hl hfin
    have hupper : ∀ b, r.limits.finiteUpper? infinity = some b →
        r.coefficients.dot (subs.map fun s => s.value y) ≤ b := by
      intro b hb
      obtain ⟨hu, hfin⟩ := Limits.finiteUpper?_eq_some.mp hb
      exact h.upper b hu hfin
    rcases mem_pending.mp hp with ⟨b, hb, rfl⟩ | ⟨-, a, ha, rfl⟩ | ⟨-, b, hb, rfl⟩
    · obtain ⟨hl, hu⟩ := hmeet.finite_of_point hb
      exact (allows_limitRow_none hr b).mpr (le_antisymm (hupper b hu) (hlower b hl))
    · exact (allows_limitRow_some hr a (-1)).mpr (by linarith [hlower a ha])
    · exact (allows_limitRow_some hr b 1).mpr (by linarith [hupper b hb])

end Row

end LinProg
