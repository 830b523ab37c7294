/-
Tableaus as arrays.

All lines of a tableau and its relative costs have an entry for every column
and one more, and whatever names a column names one that is there: a basic
column, a first unit column, a column that may enter.  This shape is laid
down by the first tableau and kept by every pivot and every cost; with it
each access of the simplex method is to a place that is there.  Nothing is
asked of the entries, which may be any scalars.
-/
import LinProg.Proofs.Access.Conversion
import LinProg.Proofs.Tableau.Choice
import LinProg.Proofs.Tableau.Cost
import LinProg.Proofs.Tableau.Start

namespace LinProg

open Checked

variable {α : Type} [Scalar α]

namespace Tableau

variable {t : Tableau α} {n column row : ℕ}

/-- Lines and relative costs have an entry for every column and one more, the columns that are
named are there, and the first `n` columns are not artificial. -/
structure Shaped (n : ℕ) (t : Tableau α) : Prop where
  entries : ∀ l ∈ t.lines, l.entries.length = t.nrColumns + 1
  costs : t.costs.length = t.nrColumns + 1
  basic_lt : ∀ l ∈ t.lines, l.basic < t.nrColumns
  unit_lt : ∀ l ∈ t.lines, l.unit < t.nrColumns
  firstArtificial_eq : t.firstArtificial = n
  firstArtificial_le : t.firstArtificial ≤ t.nrColumns
  enterable_le : t.enterable ≤ t.nrColumns

omit [Scalar α] in
theorem Shaped.lt_entries (ht : t.Shaped n) {l : Line α} (hl : l ∈ t.lines)
    (hcolumn : column ≤ t.nrColumns) : column < l.entries.length :=
  (Nat.lt_succ_of_le hcolumn).trans_eq (ht.entries l hl).symm

omit [Scalar α] in
theorem Shaped.lt_costs (ht : t.Shaped n) (hcolumn : column ≤ t.nrColumns) :
    column < t.costs.length :=
  (Nat.lt_succ_of_le hcolumn).trans_eq ht.costs.symm

/-! ## The first tableau -/

def startLinesM (f : StandardForm α) (columns artificial i : ℕ) :
    List (Equation α) → Checked (List (Line α))
  | [] => .ok []
  | e :: es => do
      let entries := e.coefficients ++ List.replicate (columns - e.coefficients.length) 0 ++ [e.value]
      match (← read f.equations i).basic with
      | some j => return ⟨entries, j, j⟩ :: (← startLinesM f columns artificial (i + 1) es)
      | none => do
          let entries ← write entries artificial 1
          let ls ← startLinesM f columns (artificial + 1) (i + 1) es
          return ⟨entries, artificial, artificial⟩ :: ls

def startM (f : StandardForm α) (epsilon : α) : Checked (Tableau α) := do
  let columns := f.nrColumns + f.equations.countP fun e => e.basic.isNone
  let lines ← startLinesM f columns f.nrColumns 0 f.equations
  let inBasis ← lines.foldlM (fun b l => write b l.basic true) (List.replicate columns false)
  return {
    lines
    costs := List.replicate (columns + 1) 0
    inBasis
    firstArtificial := f.nrColumns
    enterable := columns
    epsilon
    iterations := 0 }

theorem length_padded {v : List α} (h : v.length ≤ n) :
    (v ++ List.replicate (n - v.length) (0 : α)).length = n := by
  rw [List.length_append, List.length_replicate]
  omega

theorem startLinesM_eq {f : StandardForm α} {columns artificial i : ℕ} {es : List (Equation α)}
    (hes : ∀ k e, es[k]? = some e → f.equations[i + k]? = some e)
    (hwidth : ∀ e ∈ es, e.coefficients.length ≤ columns)
    (hroom : artificial + es.countP (fun e => e.basic.isNone) ≤ columns) :
    startLinesM f columns artificial i es = .ok (startLines columns artificial es) := by
  induction es generalizing artificial i with
  | nil => rfl
  | cons e es ih =>
      obtain ⟨hw, hwidth⟩ := List.forall_mem_cons.mp hwidth
      have hfirst : f.equations[i]? = some e := hes 0 e rfl
      have hrest : ∀ k q, es[k]? = some q → f.equations[i + 1 + k]? = some q := by
        intro k q hq
        rw [Nat.add_assoc, Nat.add_comm 1]
        exact hes (k + 1) q hq
      have hpadded := length_padded hw
      rw [startLinesM, startLines, read_of_getElem? hfirst, ok_bind]
      rw [List.countP_cons] at hroom
      cases hb : e.basic with
      | some j =>
          simp only
          rw [ih hrest hwidth (by omega)]
          rfl
      | none =>
          have hroom : artificial + 1 + es.countP (fun e => e.basic.isNone) ≤ columns := by
            rw [hb, Option.isNone_none, if_pos rfl] at hroom
            omega
          have hlt : artificial < columns := by omega
          simp only
          rw [write_eq_ok (by rw [List.length_append, hpadded]; omega), ok_bind,
            ih hrest hwidth hroom, List.set_append_left _ _ (hpadded.symm ▸ hlt)]
          rfl

theorem shape_startLines {columns artificial : ℕ} {es : List (Equation α)}
    (hwidth : ∀ e ∈ es, e.coefficients.length ≤ columns)
    (hbasic : ∀ e ∈ es, ∀ j, e.basic = some j → j < columns)
    (hroom : artificial + es.countP (fun e => e.basic.isNone) ≤ columns) :
    ∀ l ∈ startLines columns artificial es,
      l.entries.length = columns + 1 ∧ l.basic < columns ∧ l.unit < columns := by
  induction es generalizing artificial with
  | nil => exact nofun
  | cons e es ih =>
      obtain ⟨hw, hwidth⟩ := List.forall_mem_cons.mp hwidth
      obtain ⟨hb, hbasic⟩ := List.forall_mem_cons.mp hbasic
      have hpadded := length_padded hw
      rw [List.countP_cons] at hroom
      rw [startLines]
      cases he : e.basic with
      | some j =>
          refine List.forall_mem_cons.mpr ⟨⟨?_, hb j he, hb j he⟩, ih hwidth hbasic (by omega)⟩
          show (_ ++ [e.value]).length = columns + 1
          rw [List.length_append, hpadded]
          rfl
      | none =>
          rw [he, Option.isNone_none, if_pos rfl] at hroom
          have hlt : artificial < columns := by omega
          refine List.forall_mem_cons.mpr ⟨⟨?_, hlt, hlt⟩, ih hwidth hbasic (by omega)⟩
          show ((List.set _ _ _) ++ [e.value]).length = columns + 1
          rw [List.length_append, List.length_set, hpadded]
          rfl

section Start

variable {m : Model α} {f : StandardForm α} (hf : f.Fits m) (ε : α)
include hf

theorem shaped_start : (start f ε).Shaped f.nrColumns := by
  have hcolumns : (start f ε).nrColumns
      = f.nrColumns + f.equations.countP fun e => e.basic.isNone := nrColumns_start
  have hlines : ∀ l ∈ (start f ε).lines, l.entries.length = (start f ε).nrColumns + 1 ∧
      l.basic < (start f ε).nrColumns ∧ l.unit < (start f ε).nrColumns := by
    rw [hcolumns]
    refine shape_startLines ?_ ?_ le_rfl
    · intro e he
      exact (hf.width e he).trans_le (Nat.le_add_right _ _)
    · intro e he j hj
      exact (hf.basic_lt e he j hj).trans_le (Nat.le_add_right _ _)
  refine ⟨fun l hl => (hlines l hl).1, ?_, fun l hl => (hlines l hl).2.1,
    fun l hl => (hlines l hl).2.2, rfl, ?_, hcolumns.ge⟩
  · rw [hcolumns]
    exact List.length_replicate
  · rw [hcolumns]
    exact Nat.le_add_right _ _

theorem startM_eq : startM f ε = .ok (start f ε) := by
  set columns := f.nrColumns + f.equations.countP (fun e => e.basic.isNone) with hcolumns
  have hlines : startLinesM f columns f.nrColumns 0 f.equations
      = .ok (startLines columns f.nrColumns f.equations) := by
    refine startLinesM_eq ?_ ?_ le_rfl
    · intro k e he
      rwa [Nat.zero_add]
    · intro e he
      exact (hf.width e he).trans_le (Nat.le_add_right _ _)
  have hmarks : (startLines columns f.nrColumns f.equations).foldlM
      (fun b l => write b l.basic true) (List.replicate columns false)
      = .ok ((startLines columns f.nrColumns f.equations).foldl
        (fun b l => b.set l.basic true) (List.replicate columns false)) := by
    refine (foldlM_eq_ok (fun b : List Bool => b.length = columns) ?_ List.length_replicate).1
    intro b hb l hl
    have hlt : l.basic < columns := ((shaped_start hf ε).basic_lt l hl).trans_eq nrColumns_start
    exact ⟨write_eq_ok (hlt.trans_eq hb.symm) true, (List.length_set ..).trans hb⟩
  rw [startM, ← hcolumns, hlines, ok_bind, hmarks]
  rfl

end Start

/-! ## Costs -/

theorem shaped_setCost (ht : t.Shaped n) (cost : List α) : (t.setCost cost).Shaped n where
  entries := ht.entries
  costs := by
    have hlen : ((List.range t.nrColumns).map (fun j => cost.getD j 0) ++ [0]).length
        = t.nrColumns + 1 := by
      rw [List.length_append, List.length_map, List.length_range]
      rfl
    exact (length_foldl_cost fun l hl => (ht.entries l hl).trans hlen.symm).trans hlen
  basic_lt := ht.basic_lt
  unit_lt := ht.unit_lt
  firstArtificial_eq := ht.firstArtificial_eq
  firstArtificial_le := ht.firstArtificial_le
  enterable_le := ht.enterable_le

omit [Scalar α] in
theorem shaped_closeArtificial (ht : t.Shaped n) : t.closeArtificial.Shaped n :=
  { ht with enterable_le := ht.firstArtificial_le }

/-! ## Reading a tableau -/

def isInBasisM (column : ℕ) (t : Tableau α) : Checked Bool := read t.inBasis column

def relativeCostM (column : ℕ) (t : Tableau α) : Checked α := read t.costs column

def rightHandSideM (t : Tableau α) (l : Line α) : Checked α := read l.entries t.nrColumns

def objectiveM (t : Tableau α) : Checked α := do return -(← t.relativeCostM t.nrColumns)

def basicSolutionM (t : Tableau α) : Checked (List α) :=
  t.lines.foldlM
    (fun values l => do
      if l.basic < t.firstArtificial then write values l.basic (← t.rightHandSideM l)
      else return values)
    (List.replicate t.firstArtificial 0)

def dualsM (t : Tableau α) : Checked (List α) :=
  t.lines.mapM fun l => do return -(← t.relativeCostM l.unit)

def isBasicFeasibleM (t : Tableau α) : Checked Bool := do
  if ← t.lines.allM (fun l => do return decide (-t.epsilon ≤ (← t.rightHandSideM l))) then
    t.lines.allM fun l => do
      return decide (Scalar.abs ((← read l.entries l.basic) - 1) ≤ t.epsilon)
  else
    return false

omit [Scalar α] in
theorem isInBasisM_eq (hcolumn : column < t.nrColumns) :
    t.isInBasisM column = .ok (t.isInBasis column) :=
  read_eq_getD hcolumn false

section Shaped

variable (ht : t.Shaped n)
include ht

theorem relativeCostM_eq (hcolumn : column ≤ t.nrColumns) :
    t.relativeCostM column = .ok (t.relativeCost column) :=
  read_eq_getD (ht.lt_costs hcolumn) 0

theorem entryM_eq {l : Line α} (hl : l ∈ t.lines) (hcolumn : column ≤ t.nrColumns) :
    read l.entries column = .ok (l.entry column) :=
  read_eq_getD (ht.lt_entries hl hcolumn) 0

theorem rightHandSideM_eq {l : Line α} (hl : l ∈ t.lines) :
    t.rightHandSideM l = .ok (t.rightHandSide l) :=
  entryM_eq ht hl le_rfl

theorem objectiveM_eq : t.objectiveM = .ok t.objective := by
  rw [objectiveM, relativeCostM_eq ht le_rfl]
  rfl

theorem basicSolutionM_eq : t.basicSolutionM = .ok t.basicSolution := by
  refine (foldlM_eq_ok (fun values : List α => values.length = t.firstArtificial) ?_
    List.length_replicate).1
  intro values hlen l hl
  split
  · rename_i hbasic
    rw [rightHandSideM_eq ht hl, ok_bind]
    exact ⟨write_eq_ok (hbasic.trans_eq hlen.symm) _, (List.length_set ..).trans hlen⟩
  · exact ⟨rfl, hlen⟩

theorem dualsM_eq : t.dualsM = .ok t.duals := by
  refine mapM_eq_ok ?_
  intro l hl
  rw [relativeCostM_eq ht (ht.unit_lt l hl).le]
  rfl

theorem isBasicFeasibleM_eq : t.isBasicFeasibleM = .ok t.isBasicFeasible := by
  have hnonneg : t.lines.allM (fun l => do return decide (-t.epsilon ≤ (← t.rightHandSideM l)))
      = .ok (t.lines.all fun l => decide (-t.epsilon ≤ t.rightHandSide l)) := by
    refine allM_eq_ok ?_
    intro l hl
    rw [rightHandSideM_eq ht hl]
    rfl
  have hunit : t.lines.allM (fun l => do
      return decide (Scalar.abs ((← read l.entries l.basic) - 1) ≤ t.epsilon))
      = .ok (t.lines.all fun l => decide (Scalar.abs (l.entry l.basic - 1) ≤ t.epsilon)) := by
    refine allM_eq_ok ?_
    intro l hl
    rw [entryM_eq ht hl (ht.basic_lt l hl).le]
    rfl
  rw [isBasicFeasibleM, hnonneg, ok_bind, hunit, isBasicFeasible]
  cases t.lines.all fun l => decide (-t.epsilon ≤ t.rightHandSide l) with
  | true => rfl
  | false => rfl

end Shaped

theorem length_basicSolution (t : Tableau α) : t.basicSolution.length = t.firstArtificial := by
  rw [basicSolution, Dense.length_foldl, List.length_replicate]
  intro values l
  split
  · exact List.length_set ..
  · rfl

end Tableau
end LinProg
