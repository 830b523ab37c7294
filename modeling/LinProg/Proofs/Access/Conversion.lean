/-
The conversion to standard form as a program on arrays.

The substitutions are looked up by the column of a coefficient, the dense
rows and the dense cost are written at the columns that the substitutions
name, and every slack is written at the next column after those.  All of
these places are there, since no coefficient of a model belongs to a column
past its last one, and since the columns are numbered one after the other.

How the numbers of a standard form fit one another (`Fits`) is what the
simplex method and the translation of its solutions rely on next.
-/
import LinProg.Proofs.Access.Model
import LinProg.Proofs.StandardForm.Conversion

namespace LinProg

open Checked

variable {α : Type} [Scalar α] {infinity : α}

/-! ## The numbers of columns -/

namespace Sparse

omit [Scalar α] in
theorem Within.mono {v : Sparse α} {n k : ℕ} (hv : v.Within n) (hk : n ≤ k) : v.Within k :=
  fun e he => (hv e he).trans_le hk

end Sparse

namespace Column

variable {c : Column α} {next : ℕ}

theorem within_parts : Sparse.Within (next + (c.substitution infinity next).parts.length)
    (c.substitution infinity next).parts := by
  rw [substitution]
  split
  · intro e he
    obtain rfl := List.mem_singleton.mp he
    exact Nat.lt_succ_self next
  · split
    · intro e he
      obtain rfl := List.mem_singleton.mp he
      exact Nat.lt_succ_self next
    · intro e he
      rcases List.mem_pair.mp he with rfl | rfl
      · exact Nat.lt_add_of_pos_right Nat.zero_lt_two
      · exact Nat.lt_succ_self (next + 1)

theorem parts_pos (infinity : α) (next : ℕ) (c : Column α) :
    0 < (c.substitution infinity next).parts.length := by
  rw [substitution]
  split
  · exact Nat.zero_lt_one
  · split
    · exact Nat.zero_lt_one
    · exact Nat.zero_lt_two

theorem within_boundRow? {p : Pending α} (h : c.boundRow? infinity next = some p) :
    Sparse.Within (next + (c.substitution infinity next).parts.length) p.coefficients := by
  obtain ⟨-, h⟩ := Option.ite_none_right_eq_some.mp h
  obtain rfl := Option.some.inj h
  intro e he
  obtain rfl := List.mem_singleton.mp he
  exact Nat.lt_add_of_pos_right (parts_pos infinity next c)

end Column

namespace Row

variable {r : Row α} {subs : List (Substitution α)} {index n : ℕ}

theorem within_substituted (hsubs : ∀ s ∈ subs, Sparse.Within n s.parts) :
    Sparse.Within n (r.substituted subs) := by
  intro e he
  obtain ⟨⟨j, x⟩, -, he⟩ := List.mem_flatMap.mp he
  obtain ⟨d, hd, rfl⟩ := List.mem_map.mp he
  rw [List.getD_eq_getElem?_getD] at hd
  cases hs : subs[j]? with
  | none =>
      rw [hs] at hd
      cases hd
  | some s =>
      rw [hs] at hd
      exact hsubs s (List.mem_of_getElem? hs) d hd

theorem of_pending?_eq_ok {ps : List (Pending α)}
    (h : r.pending? infinity subs index = .ok ps) : ps = r.pending infinity subs index := by
  rw [pending?] at h
  split at h
  · cases h
  · split at h
    · cases h
    · exact (Except.ok.inj h).symm

end Row

namespace Model

variable {m : Model α} {subs : List (Substitution α)} {index n : ℕ}

def partCount (subs : List (Substitution α)) : ℕ := subs.foldr (fun s n => s.parts.length + n) 0

theorem within_substitutionsFrom (infinity : α) (next : ℕ) (cs : List (Column α)) :
    ∀ s ∈ substitutionsFrom infinity next cs,
      Sparse.Within (next + partCount (substitutionsFrom infinity next cs)) s.parts := by
  induction cs generalizing next with
  | nil => exact nofun
  | cons c cs ih =>
      intro s hs
      show Sparse.Within (next + ((c.substitution infinity next).parts.length + partCount _)) s.parts
      rw [← Nat.add_assoc]
      rcases List.mem_cons.mp hs with rfl | hs
      · exact Column.within_parts.mono (Nat.le_add_right _ _)
      · exact ih _ s hs

theorem within_boundRowsFrom (infinity : α) (next : ℕ) (cs : List (Column α)) :
    ∀ p ∈ boundRowsFrom infinity next cs,
      Sparse.Within (next + partCount (substitutionsFrom infinity next cs)) p.coefficients := by
  induction cs generalizing next with
  | nil => exact nofun
  | cons c cs ih =>
      intro p hp
      show Sparse.Within (next + ((c.substitution infinity next).parts.length + partCount _)) _
      rw [← Nat.add_assoc]
      rcases List.mem_append.mp hp with hp | hp
      · exact (Column.within_boundRow? (Option.mem_toList.mp hp)).mono (Nat.le_add_right _ _)
      · exact ih _ p hp

theorem of_mem_rowsFrom? (hsubs : ∀ s ∈ subs, Sparse.Within n s.parts) {rows : List (Row α)}
    {ps : List (Pending α)} (h : rowsFrom? infinity subs index rows = .ok ps) :
    ∀ p ∈ ps, Sparse.Within n p.coefficients ∧ ∃ i, p.row = some i ∧ i < index + rows.length := by
  induction rows generalizing index ps with
  | nil =>
      obtain rfl := Except.ok.inj h
      exact nofun
  | cons r rows ih =>
      rw [rowsFrom?] at h
      split at h
      · cases h
      · rename_i qs hqs
        cases hrest : rowsFrom? infinity subs (index + 1) rows with
        | error o =>
            rw [hrest] at h
            cases h
        | ok rest =>
            rw [hrest] at h
            obtain rfl := Except.ok.inj h
            intro p hp
            rcases List.mem_append.mp hp with hp | hp
            · obtain rfl := Row.of_pending?_eq_ok hqs
              obtain ⟨hcoefficients, hrow⟩ := Row.of_mem_pending hp
              rw [hcoefficients]
              exact ⟨Row.within_substituted hsubs, index, hrow,
                Nat.lt_add_of_pos_right (Nat.succ_pos _)⟩
            · obtain ⟨hwithin, i, hrow, hi⟩ := ih hrest p hp
              exact ⟨hwithin, i, hrow, by rwa [List.length_cons, ← Nat.add_assoc,
                Nat.add_right_comm]⟩

end Model

/-! ## The numbers of a standard form -/

namespace Pending

variable {p : Pending α} {ps : List (Pending α)} {width slack : ℕ}

/-- Add the coefficients of an equation to be, multiplied by a sign, to dense ones. -/
def accumulate (sign : α) (coefficients : List (ℕ × α)) (dense : List α) : List α :=
  coefficients.foldl (fun d (k, x) => d.modify k (· + sign * x)) dense

theorem length_accumulate (sign : α) (coefficients : List (ℕ × α)) (dense : List α) :
    (accumulate sign coefficients dense).length = dense.length :=
  Dense.length_foldl (fun _ _ => List.length_modify _ _ _) coefficients dense

theorem length_coefficients_equation : (p.equation width slack).coefficients.length = width := by
  have hdense : ∀ sign, (accumulate sign p.coefficients (List.replicate width 0)).length = width :=
    fun sign => (length_accumulate _ _ _).trans List.length_replicate
  rw [equation]
  cases p.slack with
  | none => exact hdense _
  | some s => exact (List.length_set ..).trans (hdense _)

theorem basic_equation_eq_some {j : ℕ} (h : (p.equation width slack).basic = some j) :
    p.slack.isSome ∧ j = slack := by
  obtain ⟨s, hs, hj⟩ := Option.bind_eq_some_iff.mp h
  obtain ⟨-, hj⟩ := Option.ite_none_right_eq_some.mp hj
  exact ⟨Option.isSome_of_eq_some hs, (Option.some.inj hj).symm⟩

omit [Scalar α] in
/-- Where there is room for all slacks there is room for the first one, and after it for those of
the others. -/
theorem slack_cons_le (h : slack + (p :: ps).countP (fun p => p.slack.isSome) ≤ width) :
    (p.slack.isSome → slack < width) ∧
      (if p.slack.isSome then slack + 1 else slack) + ps.countP (fun p => p.slack.isSome)
        ≤ width := by
  rw [List.countP_cons] at h
  by_cases hs : p.slack.isSome
  · rw [if_pos hs] at h ⊢
    exact ⟨fun _ => by omega, by omega⟩
  · rw [if_neg hs] at h ⊢
    exact ⟨fun hs' => absurd hs' hs, h⟩

/-- The slacks of a list of equations stand in consecutive columns. -/
theorem of_mem_equations (hwidth : slack + ps.countP (fun p => p.slack.isSome) ≤ width)
    {q : Equation α} (hq : q ∈ equations width slack ps) :
    ∃ p ∈ ps, ∃ c, q = p.equation width c ∧ (p.slack.isSome → c < width) := by
  induction ps generalizing slack with
  | nil => cases hq
  | cons p ps ih =>
      obtain ⟨hslack, hrest⟩ := slack_cons_le hwidth
      rw [equations] at hq
      rcases List.mem_cons.mp hq with rfl | hq
      · exact ⟨p, List.mem_cons_self, slack, rfl, hslack⟩
      · obtain ⟨p', hp', c, hc⟩ := ih hrest hq
        exact ⟨p', List.mem_cons_of_mem _ hp', c, hc⟩

end Pending

/-- The numbers of a standard form fit one another and a model: the equations are as wide as the
cost, first basis columns and the columns of variables are among those, every equation that is a
limit of a row names a row of the model, and there is a substitution for each of its variables. -/
structure StandardForm.Fits (m : Model α) (f : StandardForm α) : Prop where
  width : ∀ q ∈ f.equations, q.coefficients.length = f.nrColumns
  basic_lt : ∀ q ∈ f.equations, ∀ j, q.basic = some j → j < f.nrColumns
  row_lt : ∀ q ∈ f.equations, ∀ i sign, q.origin = .constraint i sign → i < m.nrRows
  within : ∀ s ∈ f.substitutions, Sparse.Within f.nrColumns s.parts
  length : f.substitutions.length = m.nrColumns

namespace Model

variable {m : Model α} {f : StandardForm α}

/-- The limits that a model is made into, when it has a standard form. -/
theorem of_standardForm_eq_ok (h : m.standardForm infinity = .ok f) :
    ∃ rows, rowsFrom? infinity (substitutionsFrom infinity 0 m.columns) 0 m.rows = .ok rows ∧
      f =
        let subs := substitutionsFrom infinity 0 m.columns
        let pending := boundRowsFrom infinity 0 m.columns ++ rows
        let width := partCount subs + pending.countP fun p => p.slack.isSome
        { equations := Pending.equations width (partCount subs) pending
          cost := m.substitutedCost subs width
          substitutions := subs } := by
  rw [standardForm] at h
  split at h
  · cases h
  · rename_i rows hrows
    split at h
    · cases h
    · exact ⟨rows, hrows, (Except.ok.inj h).symm⟩

theorem fits_standardForm (h : m.standardForm infinity = .ok f) : f.Fits m := by
  obtain ⟨rows, hrows, rfl⟩ := of_standardForm_eq_ok h
  set subs := substitutionsFrom infinity 0 m.columns with hsubs
  set pending := boundRowsFrom infinity 0 m.columns ++ rows with hpending
  have hparts : ∀ s ∈ subs, Sparse.Within (partCount subs) s.parts := by
    simpa only [Nat.zero_add] using within_substitutionsFrom infinity 0 m.columns
  have hcost : (m.substitutedCost subs
      (partCount subs + pending.countP fun p => p.slack.isSome)).length
        = partCount subs + pending.countP fun p => p.slack.isSome :=
    length_substitutedCost _ _ _
  refine ⟨?_, ?_, ?_, ?_, length_substitutionsFrom 0 m.columns⟩
  · intro q hq
    obtain ⟨p, -, c, rfl, -⟩ := Pending.of_mem_equations le_rfl hq
    exact Pending.length_coefficients_equation.trans hcost.symm
  · intro q hq j hj
    obtain ⟨p, -, c, rfl, hc⟩ := Pending.of_mem_equations le_rfl hq
    obtain ⟨hslack, rfl⟩ := Pending.basic_equation_eq_some hj
    exact (hc hslack).trans_eq hcost.symm
  · intro q hq i sign hi
    obtain ⟨p, hp, c, rfl, -⟩ := Pending.of_mem_equations le_rfl hq
    have hrow := (Pending.origin_equation_eq_constraint hi).1
    rcases List.mem_append.mp hp with hp | hp
    · rw [row_boundRowsFrom infinity 0 m.columns p hp] at hrow
      cases hrow
    · obtain ⟨-, k, hk, hlt⟩ := of_mem_rowsFrom? hparts hrows p hp
      obtain rfl := Option.some.inj (hk.symm.trans hrow)
      rwa [Nat.zero_add] at hlt
  · intro s hs
    exact (hparts s hs).mono ((Nat.le_add_right _ _).trans_eq hcost.symm)

end Model

/-! ## The conversion -/

namespace Row

variable {r : Row α} {subs : List (Substitution α)}

def substitutedM (subs : List (Substitution α)) (r : Row α) : Checked (List (ℕ × α)) := do
  let parts ← r.coefficients.mapM fun (j, x) => do
    return (← read subs j).parts.map fun (k, sign) => (k, sign * x)
  return parts.flatten

def shiftM (subs : List (Substitution α)) (r : Row α) : Checked α := do
  let terms ← r.coefficients.mapM fun (j, x) => do return x * (← read subs j).offset
  return Scalar.sum terms

theorem substitutedM_eq (h : r.coefficients.Within subs.length) :
    r.substitutedM subs = .ok (r.substituted subs) := by
  have hparts : r.coefficients.mapM (fun (j, x) => do
      return (← read subs j).parts.map fun (k, sign) => (k, sign * x))
      = (.ok (r.coefficients.map fun (j, x) =>
          (subs.getD j ⟨0, []⟩).parts.map fun (k, sign) => (k, sign * x))
        : Checked (List (List (ℕ × α)))) := by
    refine mapM_eq_ok ?_
    rintro ⟨j, x⟩ he
    simp only [read_eq_getD (h (j, x) he) ⟨0, []⟩, ok_bind, pure_eq_ok]
  rw [substitutedM, hparts, ok_bind, pure_eq_ok, ← List.flatMap_def]
  rfl

theorem shiftM_eq (h : r.coefficients.Within subs.length) :
    r.shiftM subs = .ok (r.shift subs) := by
  have hterms : r.coefficients.mapM (fun (j, x) => do return x * (← read subs j).offset)
      = (.ok (r.coefficients.map fun (j, x) => x * (subs.getD j ⟨0, []⟩).offset)
        : Checked (List α)) := by
    refine mapM_eq_ok ?_
    rintro ⟨j, x⟩ he
    simp only [read_eq_getD (h (j, x) he) ⟨0, []⟩, ok_bind, pure_eq_ok]
  rw [shiftM, hterms, ok_bind]
  rfl

end Row

/-- The equations of an interval that can be met, for the coefficients and the shift of its row. -/
def Limits.pending (infinity : α) (coefficients : List (ℕ × α)) (shift : α) (index : ℕ)
    (limits : Limits α) : List (Pending α) :=
  match limits.point? with
  | some b => [⟨coefficients, b - shift, none, some index⟩]
  | none =>
      (limits.finiteLower? infinity).toList.map
          (fun a => ⟨coefficients, a - shift, some (-1), some index⟩)
        ++ (limits.finiteUpper? infinity).toList.map
          (fun b => ⟨coefficients, b - shift, some 1, some index⟩)

namespace Pending

variable {p : Pending α} {ps : List (Pending α)} {width slack : ℕ}

def accumulateM (sign : α) (coefficients : List (ℕ × α)) (dense : List α) :
    Checked (List α) :=
  coefficients.foldlM (fun d (k, x) => alter d k fun y => .ok (y + sign * x)) dense

/-- The equation of a given width whose slack, if it has one, is in column `slack`; whether the
slack can be basic is told by the coefficient that was written. -/
def equationM (width slack : ℕ) (p : Pending α) : Checked (Equation α) := do
  let sign : α := if p.value < 0 then -1 else 1
  let origin : Origin α :=
    match p.row with
    | some row => .constraint row sign
    | none => .bound
  let dense ← accumulateM sign p.coefficients (List.replicate width 0)
  match p.slack with
  | none => return ⟨dense, sign * p.value, none, origin⟩
  | some s => do
      let dense ← write dense slack (sign * s)
      let basic := if 0 < (← read dense slack) then some slack else none
      return ⟨dense, sign * p.value, basic, origin⟩

def equationsM (width slack : ℕ) : List (Pending α) → Checked (List (Equation α))
  | [] => .ok []
  | p :: ps => do
      let q ← p.equationM width slack
      let qs ← equationsM width (if p.slack.isSome then slack + 1 else slack) ps
      return q :: qs

theorem accumulateM_eq (sign : α) {coefficients : List (ℕ × α)} {dense : List α}
    (h : Sparse.Within dense.length coefficients) :
    accumulateM sign coefficients dense = .ok (accumulate sign coefficients dense) := by
  refine (foldlM_eq_ok (fun d => d.length = dense.length) ?_ rfl).1
  rintro d hlen ⟨k, x⟩ he
  have hk : k < d.length := (h (k, x) he).trans_eq hlen.symm
  exact ⟨alter_eq_ok (g := fun y => y + sign * x) hk rfl, (List.length_modify ..).trans hlen⟩

theorem equationM_eq (h : Sparse.Within width p.coefficients)
    (hslack : p.slack.isSome → slack < width) :
    p.equationM width slack = .ok (p.equation width slack) := by
  have hlen : ∀ sign, (accumulate sign p.coefficients (List.replicate width 0)).length = width :=
    fun sign => (length_accumulate _ _ _).trans List.length_replicate
  rw [equationM, equation]
  simp only
  generalize (if p.value < 0 then -1 else 1 : α) = sign
  rw [accumulateM_eq sign (by rwa [List.length_replicate]), ok_bind]
  cases hs : p.slack with
  | none => rfl
  | some s =>
      have hlt := (hslack (Option.isSome_of_eq_some hs)).trans_eq (hlen sign).symm
      simp only
      rw [write_eq_ok hlt, ok_bind, read_eq_ok ((List.length_set ..).symm ▸ hlt), ok_bind,
        List.getElem_set_self]
      rfl

theorem equationsM_eq (hps : ∀ p ∈ ps, Sparse.Within width p.coefficients)
    (hwidth : slack + ps.countP (fun p => p.slack.isSome) ≤ width) :
    equationsM width slack ps = .ok (equations width slack ps) := by
  induction ps generalizing slack with
  | nil => rfl
  | cons p ps ih =>
      obtain ⟨hp, hps⟩ := List.forall_mem_cons.mp hps
      obtain ⟨hslack, hrest⟩ := slack_cons_le hwidth
      rw [equationsM, equationM_eq hp hslack, ok_bind, ih hps hrest]
      rfl

end Pending

namespace Model

variable {m : Model α} {f : StandardForm α} {subs : List (Substitution α)}

def pendingM? (infinity : α) (subs : List (Substitution α)) (m : Model α) (index : ℕ)
    (r : Row α) : Checked (Option (List (Pending α))) := do
  let coefficients ← r.substitutedM subs
  let shift ← r.shiftM subs
  let limits ← m.limitsM index
  if limits.unmeetable infinity then
    return none
  return some (limits.pending infinity coefficients shift index)

def rowsFromM? (infinity : α) (subs : List (Substitution α)) (m : Model α) (index : ℕ) :
    List (Row α) → Checked (Option (List (Pending α)))
  | [] => .ok (some [])
  | r :: rows => do
      match ← pendingM? infinity subs m index r with
      | none => return none
      | some ps => return (← rowsFromM? infinity subs m (index + 1) rows).map (ps ++ ·)

def substitutedCostM (subs : List (Substitution α)) (width : ℕ) (m : Model α) :
    Checked (List α) :=
  m.cost.foldlM
    (fun d (j, x) => do
      (← read subs j).parts.foldlM
        (fun d (k, sign) => alter d k fun y => .ok (y + m.sense.sign * sign * x)) d)
    (List.replicate width 0)

def standardFormM? (infinity : α) (m : Model α) : Checked (Option (StandardForm α)) := do
  let subs := substitutionsFrom infinity 0 m.columns
  match ← rowsFromM? infinity subs m 0 m.rows with
  | none => return none
  | some rows =>
      let pending := boundRowsFrom infinity 0 m.columns ++ rows
      let width := partCount subs + pending.countP fun p => p.slack.isSome
      let equations ← Pending.equationsM width (partCount subs) pending
      let cost ← m.substitutedCostM subs width
      return some ⟨equations, cost, subs⟩

theorem pendingM?_eq {index : ℕ} {r : Row α} (hr : m.rows[index]? = some r)
    (h : r.coefficients.Within subs.length) :
    pendingM? infinity subs m index r
      = .ok (r.pending? infinity subs index).toOption := by
  rw [pendingM?, Row.substitutedM_eq h, ok_bind, Row.shiftM_eq h, ok_bind, limitsM,
    read_of_getElem? hr, ok_bind, pure_eq_ok, ok_bind, Row.pending?,
    Sparse.find?_stray_eq_none.mpr h]
  simp only
  split
  · rfl
  · rfl

theorem rowsFromM?_eq {index : ℕ} {rows : List (Row α)}
    (hrows : ∀ k r, rows[k]? = some r → m.rows[index + k]? = some r)
    (h : ∀ r ∈ rows, r.coefficients.Within subs.length) :
    rowsFromM? infinity subs m index rows
      = .ok (rowsFrom? infinity subs index rows).toOption := by
  induction rows generalizing index with
  | nil => rfl
  | cons r rows ih =>
      obtain ⟨hr, h⟩ := List.forall_mem_cons.mp h
      have hrest : ∀ k q, rows[k]? = some q → m.rows[index + 1 + k]? = some q := by
        intro k q hq
        rw [Nat.add_assoc, Nat.add_comm 1]
        exact hrows (k + 1) q hq
      have hfirst : m.rows[index]? = some r := hrows 0 r rfl
      rw [rowsFromM?, pendingM?_eq hfirst hr, ok_bind, rowsFrom?]
      cases r.pending? infinity subs index with
      | error o => rfl
      | ok ps =>
          show (rowsFromM? infinity subs m (index + 1) rows >>= fun rest =>
            .ok (rest.map (ps ++ ·))) = _
          rw [ih hrest h, ok_bind]
          cases rowsFrom? infinity subs (index + 1) rows with
          | error o => rfl
          | ok rest => rfl

theorem substitutedCostM_eq {width : ℕ} (h : m.cost.Within subs.length)
    (hsubs : ∀ s ∈ subs, Sparse.Within width s.parts) :
    m.substitutedCostM subs width = .ok (m.substitutedCost subs width) := by
  refine (foldlM_eq_ok (fun d : List α => d.length = width) ?_ List.length_replicate).1
  rintro d hlen ⟨j, x⟩ he
  have hj := h (j, x) he
  show ((read subs j >>= _) = _) ∧ _
  rw [read_eq_getD hj ⟨0, []⟩, ok_bind]
  refine foldlM_eq_ok (fun d : List α => d.length = width) ?_ hlen
  rintro d hlen ⟨k, sign⟩ hk
  have hmem : subs.getD j ⟨0, []⟩ ∈ subs := by
    rw [List.getD_eq_getElem _ _ hj]
    exact List.getElem_mem hj
  have hlt : k < d.length := (hsubs _ hmem (k, sign) hk).trans_eq hlen.symm
  exact ⟨alter_eq_ok (g := fun y => y + m.sense.sign * sign * x) hlt rfl,
    (List.length_modify ..).trans hlen⟩

/-- A model whose coefficients belong to columns that are there is converted without touching a
place that is not there. -/
theorem standardFormM?_eq (hm : m.Closed) :
    m.standardFormM? infinity = .ok (m.standardForm infinity).toOption := by
  set subs := substitutionsFrom infinity 0 m.columns with hsubs
  have hlen : subs.length = m.columns.length := length_substitutionsFrom 0 m.columns
  have hparts : ∀ s ∈ subs, Sparse.Within (partCount subs) s.parts := by
    simpa only [Nat.zero_add] using within_substitutionsFrom infinity 0 m.columns
  have hrows : rowsFromM? infinity subs m 0 m.rows
      = .ok (rowsFrom? infinity subs 0 m.rows).toOption := by
    refine rowsFromM?_eq ?_ (hlen ▸ hm.rows)
    intro k r hr
    rwa [Nat.zero_add]
  rw [standardFormM?, standardForm, ← hsubs]
  simp only
  rw [hrows, ok_bind]
  cases hok : rowsFrom? infinity subs 0 m.rows with
  | error o => rfl
  | ok rows =>
      have hpending : ∀ p ∈ boundRowsFrom infinity 0 m.columns ++ rows,
          Sparse.Within (partCount subs) p.coefficients := by
        intro p hp
        rcases List.mem_append.mp hp with hp | hp
        · simpa only [Nat.zero_add] using within_boundRowsFrom infinity 0 m.columns p hp
        · exact (of_mem_rowsFrom? hparts hok p hp).1
      show (Pending.equationsM _ _ _ >>= _) = _
      rw [Pending.equationsM_eq (fun p hp => (hpending p hp).mono (Nat.le_add_right _ _)) le_rfl,
        ok_bind, substitutedCostM_eq (hlen ▸ hm.cost)
          fun s hs => (hparts s hs).mono (Nat.le_add_right _ _), ok_bind,
        Sparse.find?_stray_eq_none.mpr (hlen ▸ hm.cost)]
      rfl

end Model
end LinProg
