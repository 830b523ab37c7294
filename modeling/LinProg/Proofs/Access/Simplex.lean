/-
The simplex method as a program on arrays.

Each round of a descent reads the tableau and pivots at a place that is
there, and leaves a tableau of the right shape for the next round; so no
number of rounds leads to an access outside.  The bound on the rounds is a
parameter here, which shows that it does not stand in for this argument.
-/
import LinProg.Engine.Solve
import LinProg.Proofs.Access.Pivot

namespace LinProg

open Checked

variable {α : Type} [Scalar α]

namespace Tableau

variable {t : Tableau α} {n : ℕ}

/-! ## Descents -/

/-- Pivot until no move is left, asking before every move whether to stop; before every question
the basis is inspected. -/
def descendM (control : Control) :
    (fuel asked : ℕ) → (log : List (ℕ × α)) → Tableau α → Checked (Descent α)
  | 0, _, log, t => .ok ⟨.exhausted, t, log⟩
  | fuel + 1, asked, log, t => do
      let _ ← t.isBasicFeasibleM
      let log := (t.iterations, ← t.objectiveM) :: log
      match control asked with
      | some why => return ⟨.interrupted why, t, log⟩
      | none =>
          match ← t.moveM with
          | .finished => return ⟨.finished, t, log⟩
          | .unlimited _ => return ⟨.unlimited, t, log⟩
          | .pivot column row => descendM control fuel (asked + 1) log (← t.pivotM column row)

/-- However many rounds a descent takes, it stays on tableaus of the right shape. -/
theorem descendM_eq (control : Control) (fuel asked : ℕ) (log : List (ℕ × α))
    (ht : t.Shaped n) :
    descendM control fuel asked log t = .ok (descend control fuel asked log t) ∧
      (descend control fuel asked log t).tableau.Shaped n := by
  induction fuel generalizing asked log t with
  | zero => exact ⟨rfl, ht⟩
  | succ fuel ih =>
      rw [descendM, isBasicFeasibleM_eq ht, ok_bind, objectiveM_eq ht, ok_bind,
        descend]
      cases control asked with
      | some why => exact ⟨rfl, ht⟩
      | none =>
          simp only
          rw [moveM_eq ht, ok_bind]
          cases hmove : t.move with
          | finished => exact ⟨rfl, ht⟩
          | unlimited column => exact ⟨rfl, ht⟩
          | pivot column row =>
              obtain ⟨hcolumn, hrow⟩ := lt_of_move ht hmove
              simp only
              rw [pivotM_eq ht hcolumn hrow, ok_bind]
              exact ih (asked + 1) _ (shaped_pivot ht hcolumn hrow)

/-! ## The two phases -/

/-- What the first phase makes of the end of its descent. -/
def settle (feasibility : α) (d : Descent α) : FirstPhase α :=
  match d.halt with
  | .interrupted why => ⟨.error (.interrupted why none), d.tableau, d.log⟩
  | .unlimited => ⟨.error .numericFailure, d.tableau, d.log⟩
  | .exhausted => ⟨.error .cycled, d.tableau, d.log⟩
  | .finished =>
      if !d.tableau.isSound then ⟨.error .numericFailure, d.tableau, d.log⟩
      else if d.tableau.objective ≤ feasibility then
        let (t', redundant) := d.tableau.expelArtificial
        ⟨.ok redundant, t', d.log⟩
      else ⟨.error .infeasible, d.tableau, d.log⟩

/-- The verdict at the end of the second descent. -/
def conclude (d : Descent α) : Verdict α :=
  match d.halt with
  | .interrupted why => .interrupted why (some d.tableau.solution)
  | .unlimited => .unbounded
  | .exhausted => .cycled
  | .finished => if d.tableau.isSound then .optimum d.tableau.solution else .numericFailure

/-- The first phase with a given bound on the number of rounds. -/
def firstPhaseWithin (bound : ℕ) (feasibility : α) (control : Control) (t : Tableau α) :
    FirstPhase α :=
  if t.enterable = t.firstArtificial then ⟨.ok [], t, []⟩
  else settle feasibility (descend control bound 0 [] t.setArtificialCost)

/-- The second phase with a given bound on the number of rounds. -/
def secondPhaseWithin (bound : ℕ) (cost : List α) (control : Control) (log : List (ℕ × α))
    (t : Tableau α) : Outcome α :=
  let d := descend control bound log.length log (t.closeArtificial.setCost cost)
  ⟨conclude d, d.tableau.iterations, d.log.reverse⟩

def settleM (feasibility : α) (d : Descent α) : Checked (FirstPhase α) := do
  match d.halt with
  | .interrupted why => return ⟨.error (.interrupted why none), d.tableau, d.log⟩
  | .unlimited => return ⟨.error .numericFailure, d.tableau, d.log⟩
  | .exhausted => return ⟨.error .cycled, d.tableau, d.log⟩
  | .finished =>
      if !d.tableau.isSound then
        return ⟨.error .numericFailure, d.tableau, d.log⟩
      if (← d.tableau.objectiveM) ≤ feasibility then
        let (t', redundant) ← d.tableau.expelArtificialM
        return ⟨.ok redundant, t', d.log⟩
      return ⟨.error .infeasible, d.tableau, d.log⟩

def solutionM (t : Tableau α) : Checked (BasicSolution α) := do
  return ⟨← t.basicSolutionM, ← t.dualsM⟩

def concludeM (d : Descent α) : Checked (Verdict α) := do
  match d.halt with
  | .interrupted why => return .interrupted why (some (← d.tableau.solutionM))
  | .unlimited => return .unbounded
  | .exhausted => return .cycled
  | .finished =>
      if d.tableau.isSound then
        return .optimum (← d.tableau.solutionM)
      return .numericFailure

def firstPhaseM (bound : ℕ) (feasibility : α) (control : Control) (t : Tableau α) :
    Checked (FirstPhase α) := do
  if t.enterable = t.firstArtificial then
    return ⟨.ok [], t, []⟩
  settleM feasibility (← descendM control bound 0 [] t.setArtificialCost)

def secondPhaseM (bound : ℕ) (cost : List α) (control : Control) (log : List (ℕ × α))
    (t : Tableau α) : Checked (Outcome α) := do
  let d ← descendM control bound log.length log (t.closeArtificial.setCost cost)
  return ⟨← concludeM d, d.tableau.iterations, d.log.reverse⟩

section Shaped

variable {d : Descent α}

theorem settleM_eq (hd : d.tableau.Shaped n) (feasibility : α) :
    settleM feasibility d = .ok (settle feasibility d) ∧
      (settle feasibility d).tableau.Shaped n := by
  rw [settleM, settle]
  cases d.halt with
  | interrupted why => exact ⟨rfl, hd⟩
  | unlimited => exact ⟨rfl, hd⟩
  | exhausted => exact ⟨rfl, hd⟩
  | finished =>
      obtain ⟨hok, hshaped⟩ := expelArtificialM_eq hd
      simp only
      rw [objectiveM_eq hd, ok_bind, hok]
      split
      · exact ⟨rfl, hd⟩
      · split
        · exact ⟨rfl, hshaped⟩
        · exact ⟨rfl, hd⟩

theorem solutionM_eq (ht : t.Shaped n) : t.solutionM = .ok t.solution := by
  rw [solutionM, basicSolutionM_eq ht, ok_bind, dualsM_eq ht]
  rfl

theorem concludeM_eq (hd : d.tableau.Shaped n) : concludeM d = .ok (conclude d) := by
  rw [concludeM, conclude, solutionM_eq hd]
  cases d.halt with
  | interrupted why => rfl
  | unlimited => rfl
  | exhausted => rfl
  | finished =>
      simp only
      split
      · rfl
      · rfl

theorem firstPhaseM_eq (bound : ℕ) (feasibility : α) (control : Control) (ht : t.Shaped n) :
    t.firstPhaseM bound feasibility control = .ok (t.firstPhaseWithin bound feasibility control) ∧
      (t.firstPhaseWithin bound feasibility control).tableau.Shaped n := by
  rw [firstPhaseM, firstPhaseWithin]
  split
  · exact ⟨rfl, ht⟩
  · obtain ⟨hok, hshaped⟩ := descendM_eq control bound 0 [] (shaped_setCost ht _)
    rw [setArtificialCost, hok, ok_bind]
    exact settleM_eq hshaped feasibility

theorem secondPhaseM_eq (bound : ℕ) (cost : List α) (control : Control) (log : List (ℕ × α))
    (ht : t.Shaped n) :
    t.secondPhaseM bound cost control log = .ok (t.secondPhaseWithin bound cost control log) := by
  obtain ⟨hok, hshaped⟩ := descendM_eq control bound log.length log
    (shaped_setCost (shaped_closeArtificial ht) cost)
  rw [secondPhaseM, hok, ok_bind, concludeM_eq hshaped]
  rfl

/-- A verdict of the first phase comes without a solution. -/
theorem solution?_of_firstPhaseWithin_eq_error {bound : ℕ} {feasibility : α} {control : Control}
    {verdict : Verdict α}
    (h : (t.firstPhaseWithin bound feasibility control).result = .error verdict) :
    verdict.solution? = none := by
  rw [firstPhaseWithin] at h
  split at h
  · cases h
  · rw [settle] at h
    split at h
    · cases h
      rfl
    · cases h
      rfl
    · cases h
      rfl
    · split at h
      · cases h
        rfl
      · split at h
        · cases h
        · cases h
          rfl

theorem solution?_of_firstPhase_eq_error {feasibility : α} {control : Control}
    {verdict : Verdict α} (h : (t.firstPhase feasibility control).result = .error verdict) :
    verdict.solution? = none := by
  have hwithin : (t.firstPhaseWithin t.moveBound feasibility control).result = .error verdict := h
  exact solution?_of_firstPhaseWithin_eq_error hwithin

theorem eq_of_solution?_conclude {d : Descent α} {b : BasicSolution α}
    (h : (conclude d).solution? = some b) : b = d.tableau.solution := by
  rw [conclude] at h
  split at h
  · exact (Option.some.inj h).symm
  · cases h
  · cases h
  · split at h
    · exact (Option.some.inj h).symm
    · cases h

/-- A solution found in the second phase has a value for each column that is not artificial. -/
theorem length_values_secondPhaseWithin (bound : ℕ) (cost : List α) (control : Control)
    (log : List (ℕ × α)) (ht : t.Shaped n) {b : BasicSolution α}
    (hb : (t.secondPhaseWithin bound cost control log).verdict.solution? = some b) :
    b.values.length = n := by
  have hshaped := (descendM_eq control bound log.length log
    (shaped_setCost (shaped_closeArtificial ht) cost)).2
  rw [secondPhaseWithin] at hb
  generalize descend control bound log.length log (t.closeArtificial.setCost cost) = d
    at hb hshaped
  rw [eq_of_solution?_conclude hb]
  exact (length_basicSolution d.tableau).trans hshaped.firstArtificial_eq

end Shaped

end Tableau

namespace StandardForm

/-- The simplex method with a given bound on the number of rounds from each tableau. -/
def minimizeWithin (bound : Tableau α → ℕ) (tolerances : Tolerances α) (control : Control)
    (f : StandardForm α) : Outcome α :=
  let t := Tableau.start f tolerances.pivot
  let first := t.firstPhaseWithin (bound t) tolerances.feasibility control
  match first.result with
  | .error verdict => ⟨verdict, first.tableau.iterations, first.log.reverse⟩
  | .ok _ => first.tableau.secondPhaseWithin (bound first.tableau) f.cost control first.log

def minimizeM (bound : Tableau α → ℕ) (tolerances : Tolerances α) (control : Control)
    (f : StandardForm α) : Checked (Outcome α) := do
  let t ← Tableau.startM f tolerances.pivot
  let first ← t.firstPhaseM (bound t) tolerances.feasibility control
  match first.result with
  | .error verdict => return ⟨verdict, first.tableau.iterations, first.log.reverse⟩
  | .ok _ => first.tableau.secondPhaseM (bound first.tableau) f.cost control first.log

theorem minimizeWithin_moveBound (tolerances : Tolerances α) (control : Control)
    (f : StandardForm α) :
    f.minimizeWithin Tableau.moveBound tolerances control = f.minimize tolerances control := rfl

variable {m : Model α} {f : StandardForm α}

theorem minimizeM_eq (hf : f.Fits m) (bound : Tableau α → ℕ) (tolerances : Tolerances α)
    (control : Control) :
    f.minimizeM bound tolerances control = .ok (f.minimizeWithin bound tolerances control) := by
  obtain ⟨hok, hshaped⟩ := Tableau.firstPhaseM_eq (bound (Tableau.start f tolerances.pivot))
    tolerances.feasibility control (Tableau.shaped_start hf tolerances.pivot)
  rw [minimizeM, Tableau.startM_eq hf, ok_bind, hok, ok_bind, minimizeWithin]
  split
  · rfl
  · exact Tableau.secondPhaseM_eq _ _ _ _ hshaped

/-- A solution that the simplex method comes back with has a value for every column. -/
theorem length_values_minimizeWithin (hf : f.Fits m) {bound : Tableau α → ℕ}
    {tolerances : Tolerances α} {control : Control} {b : BasicSolution α}
    (hb : (f.minimizeWithin bound tolerances control).verdict.solution? = some b) :
    b.values.length = f.nrColumns := by
  have hshaped := (Tableau.firstPhaseM_eq (bound (Tableau.start f tolerances.pivot))
    tolerances.feasibility control (Tableau.shaped_start hf tolerances.pivot)).2
  rw [minimizeWithin] at hb
  split at hb
  · rename_i verdict herror
    rw [Tableau.solution?_of_firstPhaseWithin_eq_error herror] at hb
    cases hb
  · exact Tableau.length_values_secondPhaseWithin _ _ _ _ hshaped hb

end StandardForm
end LinProg
