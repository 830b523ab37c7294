/-
The tableaux that a run passes.

A run passes the tableau it starts with and, in three stretches, those between
its pivots: on the artificial cost, while artificial columns are taken out of
the basis, and on the cost of the standard form.  Each stretch is the trail of
its pivots, and the trails end where the run says that it ended.

With exact arithmetic and without tolerances every one of them states the
equations of the standard form in a basis with a feasible solution (`Upheld`).
The reason is not the same in each stretch.  The ratio test keeps the values
nonnegative in both descents, and the pivots in between, which may be on
entries of either sign, are on rows of value zero and change no value at all.
-/
import LinProg.Proofs.Simplex.Questions
import LinProg.Proofs.Simplex.Tolerance

namespace LinProg

/-! ## The trails of a run -/

namespace StandardForm

variable {α : Type} [Scalar α]

/-- The descent with which a run opens. -/
def opening (tolerances : Tolerances α) (control : Control) (f : StandardForm α) :
    Descent α :=
  let t := Tableau.start f tolerances.pivot
  Tableau.descend control t.moveBound 0 [] t.setArtificialCost

/-- The tableaux of the descent of the first phase; without artificial columns there is none. -/
def firstTrail (tolerances : Tolerances α) (control : Control) (f : StandardForm α) :
    List (Tableau α) :=
  let t := Tableau.start f tolerances.pivot
  if t.enterable = t.firstArtificial then []
  else Tableau.trail (Tableau.descentPivots control t.moveBound 0 t.setArtificialCost)
    t.setArtificialCost

/-- The tableaux from which artificial columns are taken out of the basis, if the descent of the
first phase finds the equations to be satisfied, and the one after the last of them. -/
def removalTrail (tolerances : Tolerances α) (control : Control) (f : StandardForm α) :
    List (Tableau α) :=
  let t := Tableau.start f tolerances.pivot
  let d := f.opening tolerances control
  if t.enterable = t.firstArtificial then []
  else
    match d.halt with
    | .finished =>
        if d.tableau.isSound && decide (d.tableau.objective ≤ tolerances.feasibility) then
          Tableau.trail (Tableau.expelPivots (List.range d.tableau.nrRows) d.tableau) d.tableau
        else []
    | _ => []

/-- The tableaux of the descent of the second phase, if the run comes to it. -/
def secondTrail (tolerances : Tolerances α) (control : Control) (f : StandardForm α) :
    List (Tableau α) :=
  let first := (Tableau.start f tolerances.pivot).firstPhase tolerances.feasibility control
  let t := first.tableau.closeArtificial.setCost f.cost
  match first.result with
  | .error _ => []
  | .ok _ => Tableau.trail
      (Tableau.descentPivots control first.tableau.moveBound first.log.length t) t

def tableaus (tolerances : Tolerances α) (control : Control) (f : StandardForm α) :
    List (Tableau α) :=
  Tableau.start f tolerances.pivot ::
    (f.firstTrail tolerances control ++ f.removalTrail tolerances control ++
      f.secondTrail tolerances control)

/-- That the tableaux of a run are those that it passes. -/
structure Followed (tolerances : Tolerances α) (control : Control) (f : StandardForm α) : Prop where
  /-- Whether to stop is asked at the tableaux of the descents and at no other. -/
  trace : (f.minimize tolerances control).trace
    = (f.firstTrail tolerances control ++ f.secondTrail tolerances control).map
        fun t => (t.iterations, t.objective)
  /-- The first phase ends with the last of its tableaux, of which the run has at least one. -/
  first : (Tableau.start f tolerances.pivot ::
      (f.firstTrail tolerances control ++ f.removalTrail tolerances control)).getLast?
    = some ((Tableau.start f tolerances.pivot).firstPhase tolerances.feasibility control).tableau
  /-- The second phase, if the run comes to it, ends with the last of its tableaux. -/
  second : (f.secondTrail tolerances control).getLast? = f.last? tolerances control

variable {tolerances : Tolerances α} {control : Control} {f : StandardForm α}

/-- The trails of the first phase end at the tableau that it hands on. -/
theorem getLast?_firstPhase :
    (Tableau.start f tolerances.pivot ::
        (f.firstTrail tolerances control ++ f.removalTrail tolerances control)).getLast?
      = some ((Tableau.start f tolerances.pivot).firstPhase tolerances.feasibility
          control).tableau := by
  rw [List.getLast?_cons, List.getLast?_append, firstTrail, removalTrail, opening,
    Tableau.firstPhase]
  generalize Tableau.start f tolerances.pivot = t
  by_cases hnone : t.enterable = t.firstArtificial
  · simp only [if_pos hnone]
    rfl
  · have hdescent : (Tableau.trail (Tableau.descentPivots control t.moveBound 0
        t.setArtificialCost) t.setArtificialCost).getLast?
          = some (Tableau.descend control t.moveBound 0 [] t.setArtificialCost).tableau := by
      rw [Tableau.getLast?_trail, Tableau.tableau_descend]
    simp only [if_neg hnone, hdescent]
    generalize Tableau.descend control t.moveBound 0 [] t.setArtificialCost = d
    cases d.halt with
    | interrupted why => rfl
    | unlimited => rfl
    | exhausted => rfl
    | finished =>
        cases d.tableau.isSound with
        | false => rfl
        | true =>
            by_cases hle : d.tableau.objective ≤ tolerances.feasibility
            · have hexpel : d.tableau.expelArtificial.1 = d.tableau.replay _ :=
                Tableau.tableau_expelOn (List.range d.tableau.nrRows) d.tableau
              simp only [hle, decide_true, Bool.and_self, if_true, Tableau.getLast?_trail,
                Bool.not_true, Bool.false_eq_true, if_false, ← hexpel]
              rfl
            · simp only [hle, decide_false, Bool.and_false, Bool.false_eq_true, if_false,
                Bool.not_true]
              rfl

theorem getLast?_secondTrail :
    (f.secondTrail tolerances control).getLast? = f.last? tolerances control := by
  rw [secondTrail, last?]
  generalize (Tableau.start f tolerances.pivot).firstPhase tolerances.feasibility control = first
  cases first.result with
  | error verdict => rfl
  | ok redundant =>
      simp only
      rw [Tableau.getLast?_trail, Tableau.tableau_descend]

end StandardForm

/-! ## What holds along a trail -/

namespace Tableau

variable {t t' : Tableau ℚ} {control : Control}

theorem reaches_of_mem_trail {fuel asked : ℕ}
    (h : t' ∈ trail (descentPivots control fuel asked t) t) : Reaches t t' := by
  induction fuel generalizing asked t with
  | zero => exact List.mem_singleton.mp h ▸ .refl
  | succ fuel ih =>
      rw [descentPivots] at h
      split at h
      · exact List.mem_singleton.mp h ▸ .refl
      · split at h
        · rename_i c r hmove
          rcases List.mem_cons.mp h with rfl | h
          · exact .refl
          · exact .head ⟨c, r, hmove, rfl⟩ (ih h)
        · exact List.mem_singleton.mp h ▸ .refl

theorem Expelled.refl (ht : t.Canonical) (hidle : t.Idle) : Expelled t t fun _ => False :=
  ⟨ht, SameRows.refl t, rfl, fun _ => rfl, rfl, hidle, fun _ _ => False.elim⟩

/-- While artificial columns of value zero are taken out of the basis, the rows keep their space
and their values. -/
theorem expelled_of_mem_trail {rows : List ℕ} (ht : t.Canonical) (hε : t.epsilon = 0)
    (hF : t.firstArtificial ≤ t.nrColumns) (hidle : t.Idle)
    (h : t' ∈ trail (expelPivots rows t) t) : Expelled t t' fun _ => False := by
  induction rows generalizing t with
  | nil =>
      rw [List.mem_singleton.mp h]
      exact Expelled.refl ht hidle
  | cons row rows ih =>
      rw [expelPivots] at h
      split at h
      · exact ih ht hε hF hidle h
      · rename_i l hl
        obtain ⟨hrow, rfl⟩ := List.getElem?_eq_some_iff.mp hl
        rw [← line_eq_getElem hrow] at h
        split at h
        · exact ih ht hε hF hidle h
        · rename_i hge
          split at h
          · rename_i c hcol
            rcases List.mem_cons.mp h with rfl | h
            · exact Expelled.refl ht hidle
            · obtain ⟨hcF, hn, hc⟩ := replacement?_eq_some hε.ge hcol
              have hvalue : t.row row t.nrColumns = 0 := hidle row hrow (not_lt.mp hge)
              have hcan : (t.pivot c row).Canonical := ht.pivot hrow hc hn (hcF.trans_le hF)
              have hidle' := hidle.pivot_of_degenerate ht.toRectangular hrow hc hcF hvalue
              exact Expelled.after_pivot ht hrow hc hvalue (ih hcan hε (by simpa using hF) hidle' h)
          · exact ih ht hε hF hidle h

/-- A tableau that states the equations of a standard form in a basis with a feasible solution. -/
structure Upheld (f : StandardForm ℚ) (t : Tableau ℚ) : Prop extends Restates f 0 t where
  feasible : ∀ i < t.nrRows, 0 ≤ t.row i t.nrColumns

variable {f : StandardForm ℚ}

theorem upheld_start (hf : f.Proper) : Upheld f (start f 0) :=
  ⟨restates_start hf, fun _ hi => value_start_nonneg hf hi⟩

theorem Relaxed.upheld (ht : Relaxed f t) : Upheld f t where
  toCanonical := ht.toCanonical
  enterable_le := ht.enterable_le
  sameRows := ht.sameRows
  feasible := ht.feasible

theorem Restricted.upheld (ht : Restricted f t) : Upheld f t where
  toCanonical := ht.toCanonical
  enterable_le := ht.enterable_le
  sameRows := ht.sameRows
  feasible := ht.feasible

theorem Expelled.upheld {P : ℕ → Prop} (ht : Upheld f t) (h : Expelled t t' P) : Upheld f t' where
  toCanonical := h.canonical
  enterable_le := by
    rw [h.enterable, h.sameRows.nrColumns]
    exact ht.enterable_le
  sameRows := ht.sameRows.trans h.sameRows
  feasible i hi := by
    rw [h.sameRows.nrRows] at hi
    rw [h.value i]
    exact ht.feasible i hi

end Tableau

/-! ## What holds along a run -/

namespace StandardForm

variable {f : StandardForm ℚ} {t : Tableau ℚ} {control : Control}

/-- The descent of the first phase minimises the artificial cost. -/
theorem relaxed_of_mem (hf : f.Proper) (h : t ∈ f.firstTrail ⟨0, 0⟩ control) :
    Tableau.Relaxed f t := by
  obtain ⟨-, h⟩ := List.mem_ite_nil_left.mp h
  exact Tableau.relaxed_of_reaches hf (Tableau.reaches_of_mem_trail h)

theorem reaches_opening (f : StandardForm ℚ) (control : Control) :
    let d := f.opening ⟨0, 0⟩ control
    Tableau.Reaches (Tableau.start f 0).setArtificialCost d.tableau ∧
      (d.halt = .finished → d.tableau.move = .finished) := by
  obtain ⟨hreach, hfinished, -⟩ := Tableau.descend_spec control (Tableau.start f 0).moveBound 0 []
    (Tableau.start f 0).setArtificialCost
  exact ⟨hreach, hfinished⟩

/-- Where artificial columns are taken out of the basis, the descent before has brought them to
zero. -/
theorem expelled_of_mem (hf : f.Proper) (h : t ∈ f.removalTrail ⟨0, 0⟩ control) :
    let d := (f.opening ⟨0, 0⟩ control).tableau
    Tableau.Relaxed f d ∧ d.move = .finished ∧ d.Idle ∧ Tableau.Expelled d t fun _ => False := by
  obtain ⟨-, h⟩ := List.mem_ite_nil_left.mp h
  obtain ⟨hreach, hfinished⟩ := f.reaches_opening control
  have hrelaxed := Tableau.relaxed_of_reaches hf hreach
  generalize f.opening ⟨0, 0⟩ control = d at *
  split at h
  · rename_i hhalt
    obtain ⟨hcheck, h⟩ := List.mem_ite_nil_right.mp h
    have hobjective : d.tableau.objective ≤ 0 :=
      of_decide_eq_true (Bool.and_eq_true_iff.mp hcheck).2
    have hidle := hrelaxed.idle hobjective
    exact ⟨hrelaxed, hfinished hhalt, hidle, Tableau.expelled_of_mem_trail
      hrelaxed.toCanonical hrelaxed.exact hrelaxed.firstArtificial_le hidle h⟩
  · cases h

theorem reaches_of_mem_secondTrail (h : t ∈ f.secondTrail ⟨0, 0⟩ control) :
    let first := (Tableau.start f 0).firstPhase 0 control
    (∃ redundant, first.result = .ok redundant) ∧
      Tableau.Reaches (first.tableau.closeArtificial.setCost f.cost) t := by
  rw [secondTrail] at h
  simp only at h
  split at h
  · cases h
  · rename_i redundant hok
    exact ⟨⟨redundant, hok⟩, Tableau.reaches_of_mem_trail h⟩

/-- The descent of the second phase keeps the artificial columns at zero. -/
theorem restricted_of_mem (hf : f.Proper) (h : t ∈ f.secondTrail ⟨0, 0⟩ control) :
    Tableau.Restricted f t := by
  obtain ⟨⟨redundant, hok⟩, hreach⟩ := reaches_of_mem_secondTrail h
  exact (Tableau.firstPhase_ok hf hok).of_reaches hreach

/-- Every tableau of a run states the equations in a basis with a feasible solution. -/
theorem upheld_of_mem (hf : f.Proper) (h : t ∈ f.tableaus ⟨0, 0⟩ control) :
    Tableau.Upheld f t := by
  rcases List.mem_cons.mp h with rfl | h
  · exact Tableau.upheld_start hf
  · rcases List.mem_append.mp h with h | h
    · rcases List.mem_append.mp h with h | h
      · exact (relaxed_of_mem hf h).upheld
      · obtain ⟨hd, -, -, hex⟩ := expelled_of_mem hf h
        exact hex.upheld hd.upheld
    · exact (restricted_of_mem hf h).upheld

/-! ## The questions of a run -/

theorem log_firstPhase (hf : f.Proper) (control : Control) :
    ((Tableau.start f 0).firstPhase 0 control).log
      = ((f.firstTrail ⟨0, 0⟩ control).map fun t => (t.iterations, t.objective)).reverse := by
  rw [firstTrail]
  by_cases hnone : (Tableau.start f 0).enterable = (Tableau.start f 0).firstArtificial
  · rw [if_pos hnone, Tableau.firstPhase, if_pos hnone]
    rfl
  · have hhalt := Tableau.halt_ne_exhausted control 0 [] (Tableau.ready_first hf)
      (Tableau.card_le_moveBound (Tableau.start f 0))
    rw [if_neg hnone, Tableau.firstPhase_eq_settle hnone, Tableau.log_settle,
      Tableau.log_descend hhalt, List.append_nil]

/-- A run asks whether to stop at the tableaux of its descents, and at no other. -/
theorem trace_minimize (hf : f.Proper) (control : Control) :
    (f.minimize ⟨0, 0⟩ control).trace
      = (f.firstTrail ⟨0, 0⟩ control ++ f.secondTrail ⟨0, 0⟩ control).map
          fun t => (t.iterations, t.objective) := by
  have hlog := log_firstPhase hf control
  rw [List.map_append, secondTrail]
  cases hresult : ((Tableau.start f 0).firstPhase 0 control).result with
  | error verdict =>
      rw [minimize_of_error hresult]
      simp only [hlog, List.reverse_reverse, List.map_nil, List.append_nil]
  | ok redundant =>
      have hhalt := Tableau.halt_ne_exhausted control
        ((Tableau.start f 0).firstPhase 0 control).log.length
        ((Tableau.start f 0).firstPhase 0 control).log (Tableau.firstPhase_ok hf hresult).toReady
        (Tableau.card_le_moveBound ((Tableau.start f 0).firstPhase 0 control).tableau)
      rw [minimize_of_ok hresult]
      simp only [Tableau.secondPhase_eq_conclude, Tableau.log_descend hhalt,
        List.reverse_append, List.reverse_reverse]
      rw [hlog, List.reverse_reverse]

theorem followed (hf : f.Proper) (control : Control) : f.Followed ⟨0, 0⟩ control :=
  ⟨trace_minimize hf control, getLast?_firstPhase, getLast?_secondTrail⟩

end StandardForm

end LinProg
