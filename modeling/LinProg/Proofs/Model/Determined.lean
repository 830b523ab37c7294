/-
A model in stored form is determined by its sheet.

Two models may say the same and store it differently: a zero may be listed or
not, and entries may stand in any order.  Where entries are in increasing
order and none of them is zero there is one way left.  Entries that are read as
zero are then not there, and of two such lists with the same entries neither
can begin with one that the other has later.
-/
import LinProg.Proofs.Model.Sheet

namespace LinProg

variable {α : Type} [Scalar α]

namespace Sparse

variable {v w : Sparse α} {n k : ℕ}

omit [Scalar α] in
theorem Sorted.mem_iff (hv : v.Sorted) {e : ℕ × α} : e ∈ v ↔ v.lookup e.1 = some e.2 :=
  ⟨lookup_of_mem hv, mem_of_lookup⟩

omit [Scalar α] in
theorem Sorted.nodup (hv : v.Sorted) : v.Nodup := by
  refine hv.imp ?_
  rintro e d hlt rfl
  exact lt_irrefl _ hlt

omit [Scalar α] in
theorem Sorted.ext (hv : v.Sorted) (hw : w.Sorted) (h : ∀ i, v.lookup i = w.lookup i) :
    v = w := by
  have hperm : v.Perm w := by
    rw [List.perm_ext_iff_of_nodup hv.nodup hw.nodup]
    intro e
    rw [hv.mem_iff, hw.mem_iff, h]
  refine hperm.eq_of_pairwise ?_ hv hw
  intro e d _ _ hed hde
  exact absurd (hed.trans hde) (lt_irrefl _)

/-- An index is listed where it is not read as zero. -/
theorem Canonical.lookup_eq (hv : v.Canonical n) (hzero : Scalar.isZero (0 : α) = true) (i : ℕ) :
    v.lookup i = if Scalar.isZero (v.get i) then none else some (v.get i) := by
  rw [get_eq_lookup]
  cases h : v.lookup i with
  | none => rw [Option.getD_none, if_pos hzero]
  | some x =>
      have hx : ¬ Scalar.isZero x = true := by
        rw [hv.nonzero _ (mem_of_lookup h)]
        exact Bool.false_ne_true
      rw [Option.getD_some, if_neg hx]

theorem Canonical.ext (hv : v.Canonical n) (hw : w.Canonical k)
    (hzero : Scalar.isZero (0 : α) = true) (h : ∀ i, v.get i = w.get i) : v = w := by
  refine hv.sorted.ext hw.sorted ?_
  intro i
  rw [hv.lookup_eq hzero, hw.lookup_eq hzero, h]

end Sparse

omit [Scalar α] in
theorem Row.ext_heading {r r' : Row α} (hheading : r.heading = r'.heading)
    (hcoefficients : r.coefficients = r'.coefficients) : r = r' := by
  obtain ⟨v, relation, b, range, name⟩ := r
  obtain ⟨v', relation', b', range', name'⟩ := r'
  obtain rfl : v = v' := hcoefficients
  cases hheading
  rfl

namespace Model

variable {m m' : Model α}

/-- Models in stored form that say the same are the same. -/
theorem Canonical.ext_sheet (hm : m.Canonical) (hm' : m'.Canonical)
    (hzero : Scalar.isZero (0 : α) = true) (h : m.sheet = m'.sheet) : m = m' := by
  have hcell : ∀ row j, m.cell row j = m'.cell row j := fun row j =>
    congrArg (fun s : Sheet α => s.cell row (j + 1)) h
  have hcost : m.cost = m'.cost := hm.cost.ext hm'.cost hzero (hcell 0)
  have hheadings : m.rows.map Row.heading = m'.rows.map Row.heading := congrArg Sheet.headings h
  have hlength : m.rows.length = m'.rows.length := by
    simpa using congrArg List.length hheadings
  have hrows : m.rows = m'.rows := by
    refine List.ext_getElem hlength ?_
    intro i hi hi'
    refine Row.ext_heading ?_ ?_
    · simpa [hi, hi'] using congrArg (fun headings : List (Heading α) => headings[i]?) hheadings
    · refine (hm.rows _ (List.getElem_mem hi)).ext (hm'.rows _ (List.getElem_mem hi')) hzero ?_
      intro j
      have hj := hcell (i + 1) j
      rw [cell_succ, cell_succ, List.getElem?_eq_getElem hi, List.getElem?_eq_getElem hi'] at hj
      exact hj
  obtain ⟨sense, cost, rows, columns⟩ := m
  obtain ⟨sense', cost', rows', columns'⟩ := m'
  obtain rfl : sense = sense' := congrArg Sheet.sense h
  obtain rfl : columns = columns' := congrArg Sheet.columns h
  obtain rfl : cost = cost' := hcost
  obtain rfl : rows = rows' := hrows
  rfl

end Model
end LinProg
