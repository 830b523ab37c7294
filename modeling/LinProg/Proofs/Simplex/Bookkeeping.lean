/-
The bookkeeping of the basis.

A run decides by comparisons where to pivot, and an undefined entry loses every
comparison.  So whatever the entries are, and however badly they were rounded,
a pivot is on a column that is not basic and on an entry of a size above the
tolerance, each row keeps a basic column of its own, the marks tell which
columns are basic, and every pivot is counted (`Booked`).

The columns of the first basis are numbered in two places.  The slacks that are
offered stand in consecutive columns behind those of the variables, and the
artificial columns in consecutive columns behind the slacks; both times the
number that comes next is above all that were given before.
-/
import LinProg.Proofs.Access.Tableau
import LinProg.Proofs.Scalar.Binary64
import LinProg.Proofs.Simplex.Visits

namespace LinProg

variable {α : Type} [Scalar α]

/-! ## The columns of the first basis -/

/-- The columns that equations offer for the first basis are the slacks of some of them, all
different and none before the first one. -/
theorem Pending.nodup_basic_equations (width slack : ℕ) (ps : List (Pending α)) :
    ((equations width slack ps).filterMap Equation.basic).Nodup ∧
      ∀ j ∈ (equations width slack ps).filterMap Equation.basic, slack ≤ j := by
  induction ps generalizing slack with
  | nil => exact ⟨List.nodup_nil, nofun⟩
  | cons p ps ih =>
      rw [equations]
      obtain ⟨hnodup, hle⟩ := ih (if p.slack.isSome then slack + 1 else slack)
      cases hbasic : (p.equation width slack).basic with
      | none =>
          rw [List.filterMap_cons_none hbasic]
          refine ⟨hnodup, fun j hj => ?_⟩
          have hnext := hle j hj
          split at hnext
          · exact (Nat.le_succ slack).trans hnext
          · exact hnext
      | some j =>
          obtain ⟨hsome, rfl⟩ := basic_equation_eq_some hbasic
          rw [List.filterMap_cons_some hbasic]
          rw [if_pos hsome] at hnodup hle ⊢
          refine ⟨List.nodup_cons.mpr ⟨fun hj => ?_, hnodup⟩, ?_⟩
          · exact absurd (hle j hj) (Nat.not_succ_le_self j)
          · intro k hk
            rcases List.mem_cons.mp hk with rfl | hk
            · exact le_rfl
            · exact (Nat.le_succ j).trans (hle k hk)

theorem Model.nodup_basic {m : Model α} {infinity : α} {f : StandardForm α}
    (h : m.standardForm infinity = .ok f) : (f.equations.filterMap Equation.basic).Nodup := by
  obtain ⟨rows, -, rfl⟩ := of_standardForm_eq_ok h
  exact (Pending.nodup_basic_equations _ _ _).1

namespace Tableau

variable {t : Tableau α} {ε : α} {c r : ℕ}

theorem nodup_basic_startLines {columns artificial : ℕ} {es : List (Equation α)}
    (hes : (es.filterMap Equation.basic).Nodup)
    (hlt : ∀ j ∈ es.filterMap Equation.basic, j < artificial) :
    ((startLines columns artificial es).map Line.basic).Nodup ∧
      ∀ j ∈ (startLines columns artificial es).map Line.basic,
        j ∈ es.filterMap Equation.basic ∨ artificial ≤ j := by
  induction es generalizing artificial with
  | nil => exact ⟨List.nodup_nil, nofun⟩
  | cons e es ih =>
      rw [startLines]
      cases hbasic : e.basic with
      | some j =>
          rw [List.filterMap_cons_some hbasic] at hes hlt ⊢
          obtain ⟨hj, hes⟩ := List.nodup_cons.mp hes
          obtain ⟨hjlt, hlt⟩ := List.forall_mem_cons.mp hlt
          obtain ⟨hnodup, hmem⟩ := ih hes hlt
          refine ⟨List.nodup_cons.mpr ⟨fun hjmem => ?_, hnodup⟩, ?_⟩
          · rcases hmem j hjmem with hoffered | hge
            · exact hj hoffered
            · exact absurd hjlt (not_lt.mpr hge)
          · intro k hk
            rcases List.mem_cons.mp hk with rfl | hk
            · exact Or.inl List.mem_cons_self
            · exact (hmem k hk).imp_left (List.mem_cons_of_mem _)
      | none =>
          rw [List.filterMap_cons_none hbasic] at hes hlt ⊢
          obtain ⟨hnodup, hmem⟩ := ih hes fun j hj => (hlt j hj).trans (Nat.lt_succ_self _)
          refine ⟨List.nodup_cons.mpr ⟨fun hamem => ?_, hnodup⟩, ?_⟩
          · rcases hmem artificial hamem with hoffered | hge
            · exact lt_irrefl _ (hlt artificial hoffered)
            · exact Nat.not_succ_le_self artificial hge
          · intro k hk
            rcases List.mem_cons.mp hk with rfl | hk
            · exact Or.inr le_rfl
            · exact (hmem k hk).imp_right (Nat.le_of_succ_le)

/-- The first tableau has a basis of different columns, which are marked. -/
theorem marked_start {m : Model α} {infinity : α} {f : StandardForm α}
    (h : m.standardForm infinity = .ok f) (ε : α) : (start f ε).Marked where
  distinct := by
    have hfits := Model.fits_standardForm h
    have hlt : ∀ j ∈ f.equations.filterMap Equation.basic, j < f.nrColumns := by
      intro j hj
      obtain ⟨e, he, hbasic⟩ := List.mem_filterMap.mp hj
      exact hfits.basic_lt e he j hbasic
    have hnodup : ((start f ε).lines.map Line.basic).Nodup :=
      (nodup_basic_startLines (Model.nodup_basic h) hlt).1
    rw [lines_eq_map, List.map_map] at hnodup
    intro i hi k hk heq
    exact List.inj_on_of_nodup_map hnodup (List.mem_range.mpr hi) (List.mem_range.mpr hk) heq
  isInBasis_iff := isInBasis_start_iff (shaped_start (Model.fits_standardForm h) ε).basic_lt

end Tableau

/-! ## What one pivot keeps -/

/-- A pivot that may be made where scalars up to `ε` count as zero. -/
structure Call.Legal (ε : α) (call : Call α) : Prop where
  lt_nrColumns : call.column < call.tableau.nrColumns
  not_basic : call.tableau.isInBasis call.column = false
  lt_nrRows : call.row < call.tableau.nrRows
  epsilon_lt : ε < Scalar.abs call.entry

namespace Tableau

/-- A tableau with its bookkeeping in order after the given pivots. -/
structure Booked (ε : α) (calls : List (Call α)) (t : Tableau α) : Prop extends Marked t where
  epsilon_eq : t.epsilon = ε
  firstArtificial_le : t.firstArtificial ≤ t.nrColumns
  enterable_le : t.enterable ≤ t.nrColumns
  iterations_eq : t.iterations = calls.length
  legal : ∀ call ∈ calls, call.Legal ε

variable {t : Tableau α} {ε : α} {calls : List (Call α)} {c r : ℕ}

theorem booked_start {m : Model α} {infinity : α} {f : StandardForm α}
    (h : m.standardForm infinity = .ok f) (ε : α) : (start f ε).Booked ε [] :=
  have hshaped := shaped_start (Model.fits_standardForm h) ε
  { toMarked := marked_start h ε
    epsilon_eq := rfl
    firstArtificial_le := hshaped.firstArtificial_le
    enterable_le := hshaped.enterable_le
    iterations_eq := rfl
    legal := nofun }

namespace Booked

variable (ht : t.Booked ε calls)
include ht

theorem pivot (h : (Call.mk t c r).Legal ε) : (t.pivot c r).Booked ε (calls ++ [⟨t, c, r⟩]) where
  toMarked := ht.toMarked.pivot h.lt_nrRows h.not_basic h.lt_nrColumns
  epsilon_eq := ht.epsilon_eq
  firstArtificial_le := by
    rw [nrColumns_pivot]
    exact ht.firstArtificial_le
  enterable_le := by
    rw [nrColumns_pivot]
    exact ht.enterable_le
  iterations_eq := by
    rw [List.length_append, ← ht.iterations_eq]
    rfl
  legal := by
    intro call hcall
    rcases List.mem_append.mp hcall with hcall | hcall
    · exact ht.legal call hcall
    · exact List.mem_singleton.mp hcall ▸ h

theorem setCost (cost : List α) : (t.setCost cost).Booked ε calls :=
  ⟨⟨ht.distinct, ht.isInBasis_iff⟩, ht.epsilon_eq, ht.firstArtificial_le, ht.enterable_le,
    ht.iterations_eq, ht.legal⟩

theorem closeArtificial : t.closeArtificial.Booked ε calls :=
  ⟨⟨ht.distinct, ht.isInBasis_iff⟩, ht.epsilon_eq, ht.firstArtificial_le, ht.firstArtificial_le,
    ht.iterations_eq, ht.legal⟩

theorem legal_of_move [Scalar.Ranked α] (hε : 0 ≤ ε) (h : t.move = .pivot c r) :
    (Call.mk t c r).Legal ε := by
  obtain ⟨hc, hn, hr, hentry⟩ := entry_of_move h
  rw [ht.epsilon_eq] at hentry
  exact ⟨hc.trans_le ht.enterable_le, hn, hr, Scalar.Ranked.lt_abs_of_lt hε hentry⟩

theorem legal_of_replacement (hr : r < t.nrRows) (h : t.replacement? (t.line r) = some c) :
    (Call.mk t c r).Legal ε := by
  obtain ⟨hc, hn, hentry⟩ := epsilon_lt_of_replacement? h
  rw [ht.epsilon_eq] at hentry
  exact ⟨hc.trans_le ht.firstArtificial_le, hn, hr, hentry⟩

end Booked

end Tableau

/-! ## What a run keeps -/

theorem StandardForm.Visits.booked [Scalar.Ranked α] {m : Model α} {infinity : α}
    {f : StandardForm α} (hf : m.standardForm infinity = .ok f) {tolerances : Tolerances α}
    (hε : 0 ≤ tolerances.pivot) {stage : Stage} {calls : List (Call α)} {t : Tableau α}
    (h : f.Visits tolerances stage calls t) : t.Booked tolerances.pivot calls := by
  induction h with
  | start => exact Tableau.booked_start hf _
  | opens _ _ ih => exact ih.setCost _
  | moves _ _ hmove ih => exact ih.pivot (ih.legal_of_move hε hmove)
  | settles _ _ _ _ ih => exact ih
  | keeps _ _ ih => exact ih
  | replaces _ hrow _ hc ih => exact ih.pivot (ih.legal_of_replacement hrow hc)
  | closes _ ih => exact ih.closeArtificial.setCost _
  | skips _ _ ih => exact ih.closeArtificial.setCost _

namespace Model

/-- At every tableau that a run on a standard form of a model can come to, whatever scalars its
entries are, the basis consists of different columns, the marks tell which they are, and the
iterations are the pivots made so far, each of them on a column that was not basic, on a row that is
there and on an entry of a size above the tolerance.  These are all tableaux of all runs. -/
theorem basis_booked [Scalar.Ranked α] {m : Model α} {infinity : α} {f : StandardForm α}
    (h : m.standardForm infinity = .ok f) {tolerances : Tolerances α} (hε : 0 ≤ tolerances.pivot) :
    (∀ stage calls t, f.Visits tolerances stage calls t →
      t.Marked ∧ t.iterations = calls.length ∧ ∀ call ∈ calls, call.Legal tolerances.pivot) ∧
      ∀ control, f.Covers tolerances control := by
  refine ⟨?_, fun control => StandardForm.covers tolerances control f⟩
  intro stage calls t ht
  have hbooked := ht.booked h hε
  exact ⟨hbooked.toMarked, hbooked.iterations_eq, hbooked.legal⟩

/-- A model with coefficients that are no finite numbers. -/
def undefined : Model Float where
  sense := .maximize
  cost := [(0, 1), (1, 1)]
  rows :=
    [Row.plain [(0, 1), (1, 1 / 0)] .equal 2, Row.plain [(0, 1), (1, 0 / 0)] .equal 1,
      Row.plain [(1, 2)] .less 3]
  columns := List.replicate 2 (Column.nonnegative 1000)

def rounded : Tolerances Float := ⟨1e-9, 1e-7⟩

/-- The run pivots once, on tableaux with undefined values and a basis that is in order. -/
theorem basis_booked_undefined :
    ∃ f, undefined.standardForm 1000 = .ok f ∧ 0 ≤ rounded.pivot ∧
      f.pivots rounded .never = [(0, 0)] ∧
      (f.firstTrail rounded .never).map Tableau.isSound = [false, false] ∧
      ∀ stage calls t, f.Visits rounded stage calls t →
        t.Marked ∧ t.iterations = calls.length ∧ ∀ call ∈ calls, call.Legal rounded.pivot := by
  have hε : 0 ≤ rounded.pivot := by decide +kernel
  have hrun : (match undefined.standardForm 1000 with
      | .ok f => decide (f.pivots rounded .never = [(0, 0)] ∧
          (f.firstTrail rounded .never).map Tableau.isSound = [false, false])
      | .error _ => false) = true := by decide +kernel
  cases hf : undefined.standardForm 1000 with
  | error o =>
      rw [hf] at hrun
      cases hrun
  | ok f =>
      rw [hf] at hrun
      obtain ⟨hpivots, hsound⟩ := of_decide_eq_true hrun
      exact ⟨f, rfl, hε, hpivots, hsound, (basis_booked hf hε).1⟩

end Model
end LinProg
