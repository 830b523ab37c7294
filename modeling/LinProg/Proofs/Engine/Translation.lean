/-
Solutions in terms of the model.

A basic solution of the standard form is taken back to the rows and columns of
the model that it was made from.  Whatever the scalars are, the result is laid
out for that model and computed from its cost and rows: this is what it means
that a solution belongs to a model.
-/
import LinProg.Proofs.Engine.Verdict
import LinProg.Proofs.Lookup
import LinProg.Proofs.Model.Names

namespace LinProg

variable {α : Type} [Scalar α]

/-- The cost of a column, from which row by row is subtracted what its coefficient there is worth;
a row that has none is passed over. -/
def Model.reducedCost (m : Model α) (duals : List α) (j : ℕ) : α :=
  ((m.rows.map Row.coefficients).zip duals).foldl
    (fun d (v, y) => (v.lookup j).elim d fun x => d - y * x) (m.cost.get j)

namespace Solution

/-- A solution is laid out by the rows and columns of a model; its objective and the values of the
rows are those of its column values, and its reduced costs those of its duals. -/
structure BelongsTo (m : Model α) (s : Solution α) : Prop where
  length_primal : s.primal.length = 1 + m.nrRows + m.nrColumns
  length_duals : s.duals.length = m.nrRows
  length_reducedCosts : s.reducedCosts.length = m.nrColumns
  objective : s.primal[0]? = some (m.cost.dot (s.columns m.nrRows))
  row : ∀ i r, m.rows[i]? = some r →
    s.primal[1 + i]? = some (r.coefficients.dot (s.columns m.nrRows))
  reducedCost : ∀ j < m.nrColumns, s.reducedCosts[j]? = some (m.reducedCost s.duals j)

variable {m m' : Model α} {f : StandardForm α} {infinity : α}

theorem BelongsTo.congr {s : Solution α} (h : s.BelongsTo m) (hm : Model.SameMatrix m m') :
    s.BelongsTo m' := by
  have hnrRows : m'.nrRows = m.nrRows := hm.nrRows_eq
  refine ⟨?_, ?_, ?_, ?_, ?_, ?_⟩
  · rw [h.length_primal, hnrRows, hm.columns]
  · rw [h.length_duals, hnrRows]
  · rw [h.length_reducedCosts, hm.columns]
  · rw [h.objective, hnrRows, hm.cost]
  · intro i r' hr'
    have hrow : (m.rows.map Row.coefficients)[i]? = some r'.coefficients := by
      rw [← hm.rows, List.getElem?_map, hr']
      rfl
    rw [List.getElem?_map] at hrow
    obtain ⟨r, hr, hcoefficients⟩ := Option.map_eq_some_iff.mp hrow
    rw [h.row i r hr, hnrRows, hcoefficients]
  · intro j hj
    rw [h.reducedCost j (hm.columns ▸ hj), Model.reducedCost, Model.reducedCost, hm.rows, hm.cost]

/-! ## Layout -/

theorem substitutions_of_standardForm (h : m.standardForm infinity = .ok f) :
    f.substitutions = Model.substitutionsFrom infinity 0 m.columns := by
  rw [Model.standardForm] at h
  simp only at h
  split at h
  · cases h
  · split at h
    · cases h
    · cases h
      rfl

theorem length_prices (m : Model α) (f : StandardForm α) (duals : List α) :
    (prices m f duals).length = m.nrRows := by
  rw [prices, Dense.length_foldl, List.length_replicate]
  rintro d ⟨q, y⟩
  dsimp only
  split
  · rfl
  · exact List.length_modify _ _ _

/-! ## Reduced costs -/

theorem getElem?_foldl_reduced (rows : List (Row α × α)) (hrows : ∀ e ∈ rows, e.1.coefficients.Sorted)
    (d : List α) (j : ℕ) :
    (rows.foldl (fun d (r, y) => r.coefficients.foldl (fun d (j, x) => d.modify j (· - y * x)) d)
        d)[j]?
      = d[j]?.map fun z => rows.foldl
          (fun d e => (e.1.coefficients.lookup j).elim d fun x => d - e.2 * x) z := by
  induction rows generalizing d with
  | nil => exact (Option.map_id' (x := d[j]?)).symm
  | cons e rows ih =>
      obtain ⟨r, y⟩ := e
      have hrow := Sparse.getElem?_foldl_modify (fun x z => z - y * x)
        (hrows (r, y) List.mem_cons_self) d j
      rw [List.foldl_cons, ih fun e he => hrows e (List.mem_cons_of_mem _ he)]
      refine (congrArg _ hrow).trans ?_
      rw [Option.map_map]
      rfl

theorem length_reduced (m : Model α) (duals : List α) :
    (reduced m duals).length = m.nrColumns := by
  rw [reduced, Dense.length_foldl, Sparse.toDense, List.length_map, List.length_range]
  intro d e
  exact Dense.length_foldl (fun _ _ => List.length_modify _ _ _) _ d

theorem getElem?_reduced (hm : m.Sorted) (duals : List α) {j : ℕ} (hj : j < m.nrColumns) :
    (reduced m duals)[j]? = some (m.reducedCost duals j) := by
  have hcost : (m.cost.toDense m.nrColumns)[j]? = some (m.cost.get j) := by
    rw [Sparse.toDense, List.getElem?_map, List.getElem?_range hj]
    rfl
  rw [reduced, getElem?_foldl_reduced, hcost, Model.reducedCost, List.zip_map_left, List.foldl_map]
  · rfl
  · intro e he
    exact hm.rows e.1 (List.of_mem_zip he).1

/-! ## Basic solutions -/

/-- A basic solution of the standard form of a model belongs to the model. -/
theorem belongsTo_ofBasic (hm : m.Sorted) (h : m.standardForm infinity = .ok f)
    (b : BasicSolution α) : (ofBasic m f b).BelongsTo m where
  length_primal := by
    have hcolumns : (f.substitutions.map fun s => s.value b.values).length = m.nrColumns := by
      rw [List.length_map, substitutions_of_standardForm h]
      exact Model.length_substitutionsFrom 0 m.columns
    rw [ofBasic, List.length_cons, List.length_append, List.length_map, hcolumns]
    exact (Nat.add_comm _ _).trans (Nat.add_assoc _ _ _).symm
  length_duals := length_prices m f b.duals
  length_reducedCosts := length_reduced m _
  objective := by
    rw [Engine.columns_ofBasic]
    rfl
  row i r hr := by
    have hi : i < (m.rows.map fun r => r.coefficients.dot (f.substitutions.map fun s =>
        s.value b.values)).length := by
      rw [List.length_map]
      exact (List.getElem?_eq_some_iff.mp hr).1
    rw [Engine.columns_ofBasic, ofBasic, Nat.add_comm, List.getElem?_cons_succ,
      List.getElem?_append_left hi, List.getElem?_map, hr]
    rfl
  reducedCost _ hj := getElem?_reduced hm _ hj

end Solution
end LinProg
