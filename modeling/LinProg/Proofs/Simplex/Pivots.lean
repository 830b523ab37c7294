/-
The pivots of a run.

Each part of the simplex method is read as the list of places it pivots on,
beside the tableau it ends with: that tableau is the first one after these
pivots, and nothing but a pivot counts as an iteration.  So what a run reports
as its iterations is how many pivots it made, in both phases and in between.
-/
import Mathlib.Data.Nat.Notation
import LinProg.Simplex

namespace LinProg

variable {α : Type} [Scalar α]

namespace Tableau

def replay (pivots : List (ℕ × ℕ)) (t : Tableau α) : Tableau α :=
  pivots.foldl (fun t p => t.pivot p.1 p.2) t

theorem replay_append (ps qs : List (ℕ × ℕ)) (t : Tableau α) :
    t.replay (ps ++ qs) = (t.replay ps).replay qs := List.foldl_append

theorem iterations_replay (ps : List (ℕ × ℕ)) (t : Tableau α) :
    (t.replay ps).iterations = t.iterations + ps.length := by
  induction ps generalizing t with
  | nil => rfl
  | cons p ps ih =>
      have hpivot : (t.pivot p.1 p.2).iterations = t.iterations + 1 := rfl
      have hreplay : t.replay (p :: ps) = (t.pivot p.1 p.2).replay ps := rfl
      rw [hreplay, ih, hpivot, List.length_cons, Nat.add_assoc, Nat.add_comm 1]

/-- The tableaux before, between and after pivots. -/
def trail : List (ℕ × ℕ) → Tableau α → List (Tableau α)
  | [], t => [t]
  | p :: ps, t => t :: trail ps (t.pivot p.1 p.2)

theorem length_trail (ps : List (ℕ × ℕ)) (t : Tableau α) : (trail ps t).length = ps.length + 1 := by
  induction ps generalizing t with
  | nil => rfl
  | cons p ps ih => rw [trail, List.length_cons, ih, List.length_cons]

theorem getLast?_trail (ps : List (ℕ × ℕ)) (t : Tableau α) :
    (trail ps t).getLast? = some (t.replay ps) := by
  induction ps generalizing t with
  | nil => rfl
  | cons p ps ih =>
      have hrest := ih (t.pivot p.1 p.2)
      rw [trail, List.getLast?_cons, hrest]
      rfl

/-! ## Descents -/

/-- The places that a descent pivots on, by column and row. -/
def descentPivots (control : Control) : (fuel asked : ℕ) → Tableau α → List (ℕ × ℕ)
  | 0, _, _ => []
  | fuel + 1, asked, t =>
      match control asked with
      | some _ => []
      | none =>
          match t.move with
          | .pivot column row =>
              (column, row) :: descentPivots control fuel (asked + 1) (t.pivot column row)
          | _ => []

theorem tableau_descend (control : Control) (fuel asked : ℕ) (log : List (ℕ × α))
    (t : Tableau α) :
    (descend control fuel asked log t).tableau
      = t.replay (descentPivots control fuel asked t) := by
  induction fuel generalizing asked log t with
  | zero => rfl
  | succ fuel ih =>
      rw [descend, descentPivots]
      cases control asked with
      | some why => rfl
      | none =>
          cases t.move with
          | finished => rfl
          | unlimited column => rfl
          | pivot column row => exact ih _ _ _

/-! ## The artificial columns -/

/-- The places that are pivoted on to take artificial columns out of the basis. -/
def expelPivots : List ℕ → Tableau α → List (ℕ × ℕ)
  | [], _ => []
  | row :: rows, t =>
      match t.lines[row]? with
      | none => expelPivots rows t
      | some l =>
          if l.basic < t.firstArtificial then expelPivots rows t
          else
            match t.replacement? l with
            | some column => (column, row) :: expelPivots rows (t.pivot column row)
            | none => expelPivots rows t

theorem tableau_expelOn (rows : List ℕ) (t : Tableau α) :
    (expelOn rows t).1 = t.replay (expelPivots rows t) := by
  induction rows generalizing t with
  | nil => rfl
  | cons row rows ih =>
      rw [expelOn, expelPivots]
      cases t.lines[row]? with
      | none => exact ih t
      | some l =>
          simp only
          split
          · exact ih t
          · cases t.replacement? l with
            | some column => exact ih (t.pivot column row)
            | none => exact ih t

/-! ## The first phase -/

/-- The places that the first phase pivots on: those of its descent, and where this finds the
equations to be satisfied, those that take the artificial columns out. -/
def firstPhasePivots (feasibility : α) (control : Control) (t : Tableau α) : List (ℕ × ℕ) :=
  if t.enterable = t.firstArtificial then []
  else
    let d := descend control t.moveBound 0 [] t.setArtificialCost
    let descent := descentPivots control t.moveBound 0 t.setArtificialCost
    match d.halt with
    | .finished =>
        if d.tableau.isSound && decide (d.tableau.objective ≤ feasibility) then
          descent ++ expelPivots (List.range d.tableau.nrRows) d.tableau
        else descent
    | _ => descent

theorem tableau_firstPhase (feasibility : α) (control : Control) (t : Tableau α) :
    (t.firstPhase feasibility control).tableau
      = (if t.enterable = t.firstArtificial then t else t.setArtificialCost).replay
          (t.firstPhasePivots feasibility control) := by
  rw [firstPhase, firstPhasePivots]
  split
  · rfl
  · have hdescend := tableau_descend control t.moveBound 0 [] t.setArtificialCost
    generalize hd : descend control t.moveBound 0 [] t.setArtificialCost = d at hdescend
    simp only
    cases d.halt with
    | interrupted why => exact hdescend
    | unlimited => exact hdescend
    | exhausted => exact hdescend
    | finished =>
        cases d.tableau.isSound with
        | false => exact hdescend
        | true =>
            by_cases hle : d.tableau.objective ≤ feasibility
            · have hexpel : d.tableau.expelArtificial.1 = d.tableau.replay _ :=
                tableau_expelOn (List.range d.tableau.nrRows) d.tableau
              simp only [hle, decide_true, Bool.and_self, Bool.not_true, if_true, replay_append,
                ← hdescend, ← hexpel]
              rfl
            · simp only [hle, decide_false, Bool.and_false, Bool.not_true, if_false]
              exact hdescend

/-! ## The second phase -/

theorem iterations_secondPhase (cost : List α) (control : Control) (log : List (ℕ × α))
    (t : Tableau α) :
    (t.secondPhase cost control log).iterations
      = t.iterations + (descentPivots control t.moveBound log.length
          (t.closeArtificial.setCost cost)).length := by
  have hdescend := tableau_descend control t.moveBound log.length log
    (t.closeArtificial.setCost cost)
  have hiterations : (t.closeArtificial.setCost cost).iterations = t.iterations := rfl
  rw [← hiterations, ← iterations_replay, ← hdescend]
  rfl

end Tableau

namespace StandardForm

/-- The places that a run pivots on, by column and row, in their order. -/
def pivots (tolerances : Tolerances α) (control : Control) (f : StandardForm α) :
    List (ℕ × ℕ) :=
  let t := Tableau.start f tolerances.pivot
  let first := t.firstPhase tolerances.feasibility control
  t.firstPhasePivots tolerances.feasibility control ++
    match first.result with
    | .error _ => []
    | .ok _ => Tableau.descentPivots control first.tableau.moveBound first.log.length
        (first.tableau.closeArtificial.setCost f.cost)

/-- The iterations of a run are the pivots that it made. -/
theorem iterations_minimize (tolerances : Tolerances α) (control : Control)
    (f : StandardForm α) :
    (f.minimize tolerances control).iterations = (f.pivots tolerances control).length := by
  have hfirst : ((Tableau.start f tolerances.pivot).firstPhase tolerances.feasibility
      control).tableau.iterations
        = ((Tableau.start f tolerances.pivot).firstPhasePivots tolerances.feasibility
            control).length := by
    rw [Tableau.tableau_firstPhase, Tableau.iterations_replay]
    split
    · exact Nat.zero_add _
    · exact Nat.zero_add _
  rw [minimize, pivots]
  simp only [List.length_append]
  cases ((Tableau.start f tolerances.pivot).firstPhase tolerances.feasibility control).result with
  | error verdict => exact hfirst
  | ok redundant =>
      simp only
      rw [Tableau.iterations_secondPhase, hfirst]

end StandardForm
end LinProg
