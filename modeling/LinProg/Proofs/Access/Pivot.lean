/-
Pivots as programs on arrays.

A pivot reads and writes the pivot column of every line and of the relative
costs, and the marks of the two columns that change places; the choice of the
column and the row before it reads the marks, the costs, the entries of the
column and the right-hand sides, and the basic columns of the rows that are
compared.  In a tableau of the right shape all of that is there, and the shape
is kept.
-/
import LinProg.Proofs.Access.Tableau

namespace LinProg

open Checked

variable {α : Type} [Scalar α]

namespace Tableau

variable {t : Tableau α} {n column row : ℕ}

/-! ## Row operations -/

def eliminateM (pivot : List α) (column : ℕ) (entries : List α) : Checked (List α) := do
  let factor ← read entries column
  if Scalar.isZero factor then
    return entries
  write (List.zipWith (fun x p => x - factor * p) entries pivot) column 0

def normalizeM (column : ℕ) (entries : List α) : Checked (List α) := do
  let p ← read entries column
  write (entries.map (· / p)) column 1

def pivotM (column row : ℕ) (t : Tableau α) : Checked (Tableau α) := do
  let leaving ← read t.lines row
  let pivotRow ← normalizeM column leaving.entries
  let lines ← t.lines.zipIdx.mapM fun (l, i) => do
    if i = row then
      return { l with entries := pivotRow, basic := column }
    return { l with entries := ← eliminateM pivotRow column l.entries }
  let costs ← eliminateM pivotRow column t.costs
  let inBasis ← write t.inBasis leaving.basic false
  let inBasis ← write inBasis column true
  return { t with lines, costs, inBasis, iterations := t.iterations + 1 }

theorem eliminateM_eq {pivot entries : List α} (hlen : entries.length = pivot.length)
    (hcolumn : column < entries.length) :
    eliminateM pivot column entries = .ok (eliminate pivot column entries) := by
  rw [eliminateM, read_eq_getD hcolumn 0, ok_bind, eliminate]
  split
  · rfl
  · refine write_eq_ok ?_ 0
    rwa [List.length_zipWith, ← hlen, Nat.min_self]

theorem normalizeM_eq {entries : List α} (hcolumn : column < entries.length) :
    normalizeM column entries = .ok (normalize column entries) := by
  rw [normalizeM, read_eq_getD hcolumn 0, ok_bind]
  exact write_eq_ok (by rwa [List.length_map]) 1

theorem Shaped.length_pivotRow (ht : t.Shaped n) (hrow : row < t.nrRows) (column : ℕ) :
    (normalize column (t.lines.getD row ⟨[], 0, 0⟩).entries).length = t.nrColumns + 1 := by
  rw [length_normalize, List.getD_eq_getElem _ _ hrow]
  exact ht.entries _ (List.getElem_mem hrow)

section Shaped

variable (ht : t.Shaped n) (hcolumn : column < t.nrColumns) (hrow : row < t.nrRows)
include ht hcolumn hrow

theorem shaped_pivot : (t.pivot column row).Shaped n := by
  have hpivot := ht.length_pivotRow hrow column
  have hlines : ∀ l ∈ (t.pivot column row).lines, l.entries.length = t.nrColumns + 1 ∧
      l.basic < t.nrColumns ∧ l.unit < t.nrColumns := by
    intro l hl
    obtain ⟨i, hi, rfl⟩ := List.mem_mapIdx.mp hl
    have hmem := List.getElem_mem hi
    have hlen := ht.entries _ hmem
    have hbasic := ht.basic_lt _ hmem
    have hunit := ht.unit_lt _ hmem
    split
    · exact ⟨hpivot, hcolumn, hunit⟩
    · exact ⟨(length_eliminate (hlen.trans hpivot.symm)).trans hlen, hbasic, hunit⟩
  refine ⟨?_, ?_, ?_, ?_, ht.firstArtificial_eq, ?_, ?_⟩
  · intro l hl
    rw [nrColumns_pivot]
    exact (hlines l hl).1
  · rw [nrColumns_pivot]
    exact (length_eliminate (ht.costs.trans hpivot.symm)).trans ht.costs
  · intro l hl
    rw [nrColumns_pivot]
    exact (hlines l hl).2.1
  · intro l hl
    rw [nrColumns_pivot]
    exact (hlines l hl).2.2
  · rw [nrColumns_pivot]
    exact ht.firstArtificial_le
  · rw [nrColumns_pivot]
    exact ht.enterable_le

theorem pivotM_eq : t.pivotM column row = .ok (t.pivot column row) := by
  have hpivot := ht.length_pivotRow hrow column
  have hleaving : t.lines.getD row ⟨[], 0, 0⟩ ∈ t.lines := by
    rw [List.getD_eq_getElem _ _ hrow]
    exact List.getElem_mem hrow
  set leaving := t.lines.getD row ⟨[], 0, 0⟩ with hdef
  set pivotRow := normalize column leaving.entries with hpivotRow
  have hlines : t.lines.zipIdx.mapM (fun (l, i) => do
      if i = row then
        return { l with entries := pivotRow, basic := column }
      return { l with entries := ← eliminateM pivotRow column l.entries })
      = (.ok (t.lines.zipIdx.map fun (l, i) =>
          if i = row then { l with entries := pivotRow, basic := column }
          else { l with entries := eliminate pivotRow column l.entries })
        : Checked (List (Line α))) := by
    refine mapM_eq_ok ?_
    rintro ⟨l, i⟩ he
    have hl : l ∈ t.lines := List.mem_of_getElem? (List.mem_zipIdx_iff_getElem?.mp he)
    simp only
    split
    · rfl
    · rw [eliminateM_eq ((ht.entries l hl).trans hpivot.symm) (ht.lt_entries hl hcolumn.le)]
      rfl
  have hbasic : leaving.basic < t.inBasis.length := ht.basic_lt leaving hleaving
  rw [pivotM, read_eq_getD hrow ⟨[], 0, 0⟩, ok_bind, ← hdef,
    normalizeM_eq (ht.lt_entries hleaving hcolumn.le), ok_bind, ← hpivotRow, hlines, ok_bind,
    eliminateM_eq (ht.costs.trans hpivot.symm) (ht.lt_costs hcolumn.le), ok_bind,
    write_eq_ok hbasic, ok_bind, write_eq_ok ((List.length_set ..).symm ▸ hcolumn), ok_bind,
    pivot, List.mapIdx_eq_zipIdx_map]
  rfl

end Shaped

/-! ## The choice of column and row -/

def enteringColumnM? (t : Tableau α) : Checked (Option ℕ) :=
  (List.range t.enterable).findM? fun j => do
    if ← t.isInBasisM j then
      return false
    return decide ((← t.relativeCostM j) < -t.epsilon)

def candidatesM (column : ℕ) (t : Tableau α) : Checked (List (Candidate α)) := do
  let found ← t.lines.zipIdx.mapM fun (l, i) => do
    if t.epsilon < (← read l.entries column) then
      let ratio := (← t.rightHandSideM l) / (← read l.entries column)
      return some (⟨i, l.basic, ratio⟩ : Candidate α)
    return none
  return found.reduceOption

/-- Order by ratio, and by the basic columns of the two rows where the ratios agree up to the
tolerance. -/
def orderM (t : Tableau α) (a b : Candidate α) : Checked Ordering := do
  if Scalar.abs (a.ratio - b.ratio) ≤ t.epsilon then
    return compare (← read t.lines a.row).basic (← read t.lines b.row).basic
  return Scalar.order a.ratio b.ratio

def betterM (t : Tableau α) (a b : Candidate α) : Checked (Candidate α) := do
  if (← t.orderM a b) = .gt then
    return b
  return a

def bestM? (t : Tableau α) : List (Candidate α) → Checked (Option (Candidate α))
  | [] => .ok none
  | c :: cs => do return some (← cs.foldlM t.betterM c)

def leavingRowM? (column : ℕ) (t : Tableau α) : Checked (Option ℕ) := do
  return (← t.bestM? (← t.candidatesM column)).map Candidate.row

def moveM (t : Tableau α) : Checked Move := do
  match ← t.enteringColumnM? with
  | none => return .finished
  | some column =>
      match ← t.leavingRowM? column with
      | some row => return .pivot column row
      | none => return .unlimited column

/-- A candidate tells the basic column of a row that is there. -/
def Candidate.On (t : Tableau α) (c : Candidate α) : Prop :=
  ∃ l, t.lines[c.row]? = some l ∧ l.basic = c.basic

theorem mem_candidates_on {c : Candidate α} (hc : c ∈ t.candidates column) : c.On t := by
  obtain ⟨⟨i, l⟩, hl, hc⟩ := List.mem_filterMap.mp hc
  obtain ⟨k, hk, heq⟩ := List.mem_mapIdx.mp hl
  obtain ⟨rfl, rfl⟩ := Prod.mk.inj heq
  obtain ⟨-, hc⟩ := Option.ite_none_right_eq_some.mp hc
  obtain rfl := Option.some.inj hc
  exact ⟨_, List.getElem?_eq_getElem hk, rfl⟩

theorem orderM_eq {a b : Candidate α} (ha : a.On t) (hb : b.On t) :
    t.orderM a b = .ok (a.order t.epsilon b) := by
  obtain ⟨l, hl, hla⟩ := ha
  obtain ⟨k, hk, hkb⟩ := hb
  rw [orderM, Candidate.order, read_of_getElem? hl, read_of_getElem? hk, ok_bind, ok_bind, hla,
    hkb]
  split
  · rfl
  · rfl

theorem betterM_eq {a b : Candidate α} (ha : a.On t) (hb : b.On t) :
    t.betterM a b = .ok (if a.order t.epsilon b = .gt then b else a) ∧
      (if a.order t.epsilon b = .gt then b else a).On t := by
  rw [betterM, orderM_eq ha hb, ok_bind]
  split
  · exact ⟨rfl, hb⟩
  · exact ⟨rfl, ha⟩

theorem bestM?_eq {cs : List (Candidate α)} (hcs : ∀ c ∈ cs, c.On t) :
    t.bestM? cs = .ok (best? t.epsilon cs) ∧ ∀ c, best? t.epsilon cs = some c → c.On t := by
  cases cs with
  | nil => exact ⟨rfl, nofun⟩
  | cons c cs =>
      obtain ⟨hc, hcs⟩ := List.forall_mem_cons.mp hcs
      obtain ⟨hok, hon⟩ := foldlM_eq_ok (Candidate.On t)
        (fun a ha b hb => betterM_eq ha (hcs b hb)) hc
      refine ⟨?_, ?_⟩
      · rw [bestM?, hok]
        rfl
      · intro d hd
        obtain rfl := Option.some.inj hd
        exact hon

theorem candidatesM_eq (ht : t.Shaped n) (hcolumn : column < t.nrColumns) :
    t.candidatesM column = .ok (t.candidates column) := by
  have hfound : t.lines.zipIdx.mapM (fun (l, i) => do
      if t.epsilon < (← read l.entries column) then
        let ratio := (← t.rightHandSideM l) / (← read l.entries column)
        return some (⟨i, l.basic, ratio⟩ : Candidate α)
      return none)
      = .ok (t.lines.zipIdx.map fun (l, i) =>
          if t.epsilon < l.entry column then
            some ⟨i, l.basic, t.rightHandSide l / l.entry column⟩
          else none) := by
    refine mapM_eq_ok ?_
    rintro ⟨l, i⟩ he
    have hl : l ∈ t.lines := List.mem_of_getElem? (List.mem_zipIdx_iff_getElem?.mp he)
    simp only
    rw [entryM_eq ht hl hcolumn.le, ok_bind]
    split
    · rw [rightHandSideM_eq ht hl]
      rfl
    · rfl
  rw [candidatesM, hfound, ok_bind, candidates, List.mapIdx_eq_zipIdx_map, List.filterMap_map,
    List.reduceOption, List.filterMap_map]
  rfl

theorem leavingRowM?_eq (ht : t.Shaped n) (hcolumn : column < t.nrColumns) :
    t.leavingRowM? column = .ok (t.leavingRow? column) := by
  rw [leavingRowM?, candidatesM_eq ht hcolumn, ok_bind,
    (bestM?_eq fun c hc => mem_candidates_on hc).1]
  rfl

theorem lt_nrRows_of_leavingRow? (h : t.leavingRow? column = some row) : row < t.nrRows := by
  obtain ⟨c, hc, rfl⟩ := Option.map_eq_some_iff.mp h
  obtain ⟨l, hl, -⟩ := (bestM?_eq fun c hc => mem_candidates_on hc).2 c hc
  exact (List.getElem?_eq_some_iff.mp hl).1

theorem enteringColumnM?_eq (ht : t.Shaped n) :
    t.enteringColumnM? = .ok t.enteringColumn? := by
  refine findM?_eq_ok ?_
  intro j hj
  have hlt : j < t.nrColumns := (List.mem_range.mp hj).trans_le ht.enterable_le
  rw [isInBasisM_eq hlt, ok_bind, relativeCostM_eq ht hlt.le]
  cases t.isInBasis j with
  | true => rfl
  | false => rfl

theorem moveM_eq (ht : t.Shaped n) : t.moveM = .ok t.move := by
  rw [moveM, enteringColumnM?_eq ht, ok_bind, move]
  cases hcolumn : t.enteringColumn? with
  | none => rfl
  | some column =>
      have hlt := (lt_enterable_of_enteringColumn? hcolumn).1.trans_le ht.enterable_le
      simp only
      rw [leavingRowM?_eq ht hlt, ok_bind]
      cases t.leavingRow? column with
      | none => rfl
      | some row => rfl

/-- A move pivots at a place that is there. -/
theorem lt_of_move (ht : t.Shaped n) (h : t.move = .pivot column row) :
    column < t.nrColumns ∧ row < t.nrRows := by
  rw [move] at h
  split at h
  · cases h
  · rename_i j hj
    split at h
    · rename_i i hi
      cases h
      exact ⟨(lt_enterable_of_enteringColumn? hj).1.trans_le ht.enterable_le,
        lt_nrRows_of_leavingRow? hi⟩
    · cases h

/-! ## Artificial columns -/

def replacementM? (l : Line α) (t : Tableau α) : Checked (Option ℕ) :=
  (List.range t.firstArtificial).findM? fun j => do
    if ← t.isInBasisM j then
      return false
    return decide (t.epsilon < Scalar.abs (← read l.entries j))

def expelOnM : List ℕ → Tableau α → Checked (Tableau α × List ℕ)
  | [], t => .ok (t, [])
  | row :: rows, t => do
      let l ← read t.lines row
      if l.basic < t.firstArtificial then
        expelOnM rows t
      else
        match ← t.replacementM? l with
        | some column => expelOnM rows (← t.pivotM column row)
        | none => do
            let (t', redundant) ← expelOnM rows t
            return (t', row :: redundant)

def expelArtificialM (t : Tableau α) : Checked (Tableau α × List ℕ) :=
  expelOnM (List.range t.nrRows) t

theorem replacementM?_eq (ht : t.Shaped n) {l : Line α} (hl : l ∈ t.lines) :
    t.replacementM? l = .ok (t.replacement? l) := by
  refine findM?_eq_ok ?_
  intro j hj
  have hlt : j < t.nrColumns := (List.mem_range.mp hj).trans_le ht.firstArtificial_le
  rw [isInBasisM_eq hlt, ok_bind, entryM_eq ht hl hlt.le]
  cases t.isInBasis j with
  | true => rfl
  | false => rfl

theorem expelOnM_eq {rows : List ℕ} (ht : t.Shaped n) (hrows : ∀ i ∈ rows, i < t.nrRows) :
    expelOnM rows t = .ok (expelOn rows t) ∧ (expelOn rows t).1.Shaped n := by
  induction rows generalizing t with
  | nil => exact ⟨rfl, ht⟩
  | cons row rows ih =>
      obtain ⟨hrow, hrows⟩ := List.forall_mem_cons.mp hrows
      have hline := List.getElem?_eq_getElem (l := t.lines) hrow
      rw [expelOnM, read_of_getElem? hline, ok_bind, expelOn, hline]
      simp only
      split
      · exact ih ht hrows
      · rw [replacementM?_eq ht (List.getElem_mem hrow), ok_bind]
        cases hfound : t.replacement? t.lines[row] with
        | some column =>
            have hlt : column < t.nrColumns := by
              rw [replacement?, List.find?_range_eq_some] at hfound
              exact (List.mem_range.mp hfound.2.1).trans_le ht.firstArtificial_le
            simp only
            rw [pivotM_eq ht hlt hrow, ok_bind]
            refine ih (shaped_pivot ht hlt hrow) ?_
            intro i hi
            rw [nrRows_pivot]
            exact hrows i hi
        | none =>
            obtain ⟨hok, hshaped⟩ := ih ht hrows
            simp only
            rw [hok, ok_bind]
            exact ⟨rfl, hshaped⟩

theorem expelArtificialM_eq (ht : t.Shaped n) :
    t.expelArtificialM = .ok t.expelArtificial ∧ t.expelArtificial.1.Shaped n :=
  expelOnM_eq ht fun _ hi => List.mem_range.mp hi

end Tableau
end LinProg
