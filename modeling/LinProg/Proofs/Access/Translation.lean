/-
The way back from the standard form to the model as a program on arrays.

The values of the columns are looked up by the substitutions, the duals are
added up by the rows that the equations come from, and what the coefficients
are worth is subtracted from the reduced costs by column.  These places are
there because the numbers of a standard form fit those of its model, and
because a solution has a value for each column.
-/
import LinProg.Proofs.Access.Simplex

namespace LinProg

open Checked

variable {α : Type} [Scalar α] {m : Model α} {f : StandardForm α}

namespace Substitution

def valueM (s : Substitution α) (columns : List α) : Checked α := do
  let terms ← s.parts.mapM fun (k, sign) => do return sign * (← read columns k)
  return s.offset + Scalar.sum terms

theorem valueM_eq {s : Substitution α} {columns : List α}
    (h : Sparse.Within columns.length s.parts) : s.valueM columns = .ok (s.value columns) := by
  have hterms : s.parts.mapM (fun (k, sign) => do return sign * (← read columns k))
      = (.ok (s.parts.map fun (k, sign) => sign * columns.getD k 0) : Checked (List α)) := by
    refine mapM_eq_ok ?_
    rintro ⟨k, sign⟩ he
    simp only [read_eq_getD (h (k, sign) he) 0, ok_bind, pure_eq_ok]
  rw [valueM, hterms, ok_bind]
  rfl

end Substitution

namespace Solution

/-- The price of each row: the duals of its equations are added up at its place. -/
def pricesM (m : Model α) (f : StandardForm α) (duals : List α) : Checked (List α) :=
  (f.equations.zip duals).foldlM
    (fun prices (q, y) =>
      match q.origin with
      | .bound => .ok prices
      | .constraint row sign => alter prices row fun p => .ok (p + m.sense.sign * sign * y))
    (List.replicate m.nrRows 0)

/-- Subtract what the coefficients of a row are worth at a price. -/
def subtractM (price : α) (v : Sparse α) (d : List α) : Checked (List α) :=
  v.foldlM (fun d (j, x) => alter d j fun y => .ok (y - price * x)) d

def reducedM (m : Model α) (prices : List α) : Checked (List α) := do
  let costs ← (List.range m.nrColumns).mapM fun j => m.cost.getM j
  (m.rows.zip prices).foldlM (fun d (r, y) => subtractM y r.coefficients d) costs

def ofBasicM (m : Model α) (f : StandardForm α) (b : BasicSolution α) : Checked (Solution α) := do
  let x ← f.substitutions.mapM fun s => s.valueM b.values
  let objective ← m.cost.dotM x
  let activities ← m.rows.mapM fun r => r.coefficients.dotM x
  let y ← pricesM m f b.duals
  return ⟨objective :: (activities ++ x), y, ← reducedM m y⟩

theorem pricesM_eq (hf : f.Fits m) (duals : List α) :
    pricesM m f duals = .ok (prices m f duals) := by
  refine (foldlM_eq_ok (fun prices : List α => prices.length = m.nrRows) ?_
    List.length_replicate).1
  rintro prices hlen ⟨q, y⟩ he
  have hq : q ∈ f.equations := (List.of_mem_zip he).1
  simp only
  cases horigin : q.origin with
  | bound => exact ⟨rfl, hlen⟩
  | constraint row sign =>
      have hrow : row < prices.length := (hf.row_lt q hq row sign horigin).trans_eq hlen.symm
      exact ⟨alter_eq_ok (g := fun p => p + m.sense.sign * sign * y) hrow rfl,
        (List.length_modify ..).trans hlen⟩

theorem subtractM_eq (price : α) {v : Sparse α} {d : List α} (h : v.Within d.length) :
    subtractM price v d = .ok (v.foldl (fun d (j, x) => d.modify j (· - price * x)) d) ∧
      (v.foldl (fun d (j, x) => d.modify j (· - price * x)) d).length = d.length := by
  refine foldlM_eq_ok (fun c : List α => c.length = d.length) ?_ rfl
  rintro c hlen ⟨j, x⟩ he
  have hj : j < c.length := (h (j, x) he).trans_eq hlen.symm
  exact ⟨alter_eq_ok (g := fun y => y - price * x) hj rfl, (List.length_modify ..).trans hlen⟩

theorem reducedM_eq (hs : m.Sorted) (hc : m.Closed) (prices : List α) :
    reducedM m prices = .ok (reduced m prices) := by
  rw [reducedM, mapM_eq_ok fun j _ => Sparse.getM_eq hs.cost j, ok_bind]
  refine (foldlM_eq_ok (fun d : List α => d.length = m.nrColumns) ?_
    ((List.length_map _).trans List.length_range)).1
  rintro d hlen ⟨r, y⟩ he
  have hwithin : r.coefficients.Within d.length := by
    rw [hlen]
    exact hc.rows r (List.of_mem_zip he).1
  obtain ⟨hok, hkept⟩ := subtractM_eq y hwithin
  exact ⟨hok, hkept.trans hlen⟩

/-- A solution with a value for each column is translated without touching a place that is not
there. -/
theorem ofBasicM_eq (hs : m.Sorted) (hc : m.Closed) (hf : f.Fits m) {b : BasicSolution α}
    (hb : b.values.length = f.nrColumns) : ofBasicM m f b = .ok (ofBasic m f b) := by
  have hvalues : f.substitutions.mapM (fun s => s.valueM b.values)
      = .ok (f.substitutions.map fun s => s.value b.values) :=
    mapM_eq_ok fun s hs => Substitution.valueM_eq (hb.symm ▸ hf.within s hs)
  have hlen : (f.substitutions.map fun s => s.value b.values).length = m.nrColumns :=
    (List.length_map _).trans hf.length
  have hactivities : m.rows.mapM (fun r => r.coefficients.dotM
      (f.substitutions.map fun s => s.value b.values))
      = .ok (m.rows.map fun r => r.coefficients.dot
        (f.substitutions.map fun s => s.value b.values)) :=
    mapM_eq_ok fun r hr => Sparse.dotM_eq (hlen.symm ▸ hc.rows r hr)
  rw [ofBasicM, hvalues, ok_bind, Sparse.dotM_eq (hlen.symm ▸ hc.cost), ok_bind, hactivities,
    ok_bind, pricesM_eq hf, ok_bind, reducedM_eq hs hc]
  rfl

end Solution
end LinProg
