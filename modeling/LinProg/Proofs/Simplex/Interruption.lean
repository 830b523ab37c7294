/-
What a run comes to that is stopped later, or not at all.

A control that outlasts another lets a run go on wherever the other one does.
Under it a run is the same as long as the other one goes on, and it takes over
at the tableau where the other one is stopped.  So either nothing changes, or
the other run was stopped and has made no more pivots; and where it had come
to a solution, the descent that goes on from there leads to one that costs no
more, or to an edge along which the cost falls without limit.
-/
import LinProg.Engine.Solve
import LinProg.Proofs.Simplex.Questions
import LinProg.Proofs.Simplex.SecondPhase

namespace LinProg

/-- Wherever a control lets a run go on, another one does. -/
def Control.Outlasts (control' control : Control) : Prop :=
  ∀ n, control n = none → control' n = none

theorem Control.outlasts_never (control : Control) : never.Outlasts control := fun _ _ => rfl

namespace Tableau

section Pivots

variable {α : Type} [Scalar α] {control control' : Control}

/-- A descent was stopped, and another one goes on from the tableau where it was. -/
def TakenOver (control' : Control) (d d' : Descent α) : Prop :=
  (∃ why, d.halt = .interrupted why) ∧
    ∃ fuel asked log, d' = descend control' fuel asked log d.tableau

theorem TakenOver.iterations_le {d d' : Descent α} (h : TakenOver control' d d') :
    d.tableau.iterations ≤ d'.tableau.iterations := by
  obtain ⟨-, fuel, asked, log, rfl⟩ := h
  rw [tableau_descend, iterations_replay]
  exact Nat.le_add_right _ _

/-- A descent that may go on for longer is the same, or it takes the other one over. -/
theorem descend_outlasts (h : control'.Outlasts control) (fuel asked : ℕ) (log : List (ℕ × α))
    (t : Tableau α) :
    descend control' fuel asked log t = descend control fuel asked log t ∨
      TakenOver control' (descend control fuel asked log t)
        (descend control' fuel asked log t) := by
  induction fuel generalizing asked log t with
  | zero => exact Or.inl rfl
  | succ fuel ih =>
      cases hasked : control asked with
      | some why =>
          right
          have hstopped : descend control (fuel + 1) asked log t
              = ⟨.interrupted why, t, (t.iterations, t.objective) :: log⟩ := by
            rw [descend, hasked]
          rw [hstopped]
          exact ⟨⟨why, rfl⟩, fuel + 1, asked, log, rfl⟩
      | none =>
          rw [descend, descend, hasked, h asked hasked]
          cases t.move with
          | finished => exact Or.inl rfl
          | unlimited column => exact Or.inl rfl
          | pivot column row => exact ih _ _ _

theorem iterations_le_settle (feasibility : α) (d : Descent α) :
    d.tableau.iterations ≤ (settle feasibility d).tableau.iterations := by
  rw [settle]
  split
  · exact Nat.le_refl _
  · exact Nat.le_refl _
  · exact Nat.le_refl _
  · split
    · exact Nat.le_refl _
    · split
      · have hexpel := tableau_expelOn (List.range d.tableau.nrRows) d.tableau
        refine Nat.le_trans ?_ (Nat.le_of_eq (congrArg iterations hexpel.symm))
        rw [iterations_replay]
        exact Nat.le_add_right _ _
      · exact Nat.le_refl _

/-- A first phase that may go on for longer is the same, or the other one was stopped in it. -/
theorem firstPhase_outlasts (h : control'.Outlasts control) (feasibility : α) (t : Tableau α) :
    t.firstPhase feasibility control' = t.firstPhase feasibility control ∨
      (∃ why, (t.firstPhase feasibility control).result = .error (.interrupted why none)) ∧
        (t.firstPhase feasibility control).tableau.iterations
          ≤ (t.firstPhase feasibility control').tableau.iterations := by
  by_cases hnone : t.enterable = t.firstArtificial
  · left
    rw [firstPhase, firstPhase, if_pos hnone, if_pos hnone]
  · rw [firstPhase_eq_settle hnone, firstPhase_eq_settle hnone]
    rcases descend_outlasts h t.moveBound 0 [] t.setArtificialCost with heq | htaken
    · exact Or.inl (congrArg (settle feasibility) heq)
    · right
      obtain ⟨why, hhalt⟩ := htaken.1
      have hstopped : ∀ d : Descent α, d.halt = .interrupted why →
          settle feasibility d = ⟨.error (.interrupted why none), d.tableau, d.log⟩ := by
        intro d hd
        rw [settle, hd]
      rw [hstopped _ hhalt]
      exact ⟨⟨why, rfl⟩, htaken.iterations_le.trans (iterations_le_settle feasibility _)⟩

/-- A second phase that may go on for longer comes to the same end, or the other one was stopped
in it. -/
theorem secondPhase_outlasts (h : control'.Outlasts control) (cost : List α)
    (log : List (ℕ × α)) (t : Tableau α) :
    t.secondPhase cost control' log = t.secondPhase cost control log ∨
      (∃ why s, (t.secondPhase cost control log).verdict = .interrupted why s) ∧
        (t.secondPhase cost control log).iterations
          ≤ (t.secondPhase cost control' log).iterations := by
  rw [secondPhase_eq_conclude, secondPhase_eq_conclude]
  rcases descend_outlasts h t.moveBound log.length log (t.closeArtificial.setCost cost) with
    heq | htaken
  · left
    rw [heq]
  · obtain ⟨why, hhalt⟩ := htaken.1
    exact Or.inr ⟨⟨why, _, conclude_of_interrupted hhalt⟩, htaken.iterations_le⟩

end Pivots

/-! ## The cost -/

/-- A descent that takes another one over reaches its own end from where the other one was
stopped. -/
theorem TakenOver.reaches {control' : Control} {d d' : Descent ℚ} (h : TakenOver control' d d') :
    Reaches d.tableau d'.tableau := by
  obtain ⟨-, fuel, asked, log, rfl⟩ := h
  exact (descend_spec control' fuel asked log d.tableau).1

/-- A descent that is not given up ends with a solution, or where the cost falls without limit. -/
theorem conclude_cases {t : Tableau ℚ} (ht : t.Ready) (control : Control) (asked : ℕ)
    (log : List (ℕ × ℚ)) {fuel : ℕ} (hfuel : t.nrColumns ^ t.nrRows ≤ fuel) :
    let d := descend control fuel asked log t
    conclude d = .unbounded ∨ (conclude d).solution? = some d.tableau.solution := by
  intro d
  obtain ⟨-, hend⟩ := descend_cases control asked log ht hfuel
  rcases hend with ⟨hhalt, -⟩ | ⟨hhalt, -⟩ | ⟨why, hhalt⟩
  · right
    rw [conclude, hhalt]
    simp only [isSound_eq, if_true]
    rfl
  · left
    rw [conclude, hhalt]
  · right
    rw [conclude_of_interrupted hhalt]
    rfl

/-- What a second phase with a solution comes to when it may go on for longer. -/
theorem secondPhase_value_le {control control' : Control} {f : StandardForm ℚ} (hf : f.Proper)
    {t : Tableau ℚ} (ht : Restricted f (t.closeArtificial.setCost f.cost))
    (h : control'.Outlasts control) {log : List (ℕ × ℚ)} {b : BasicSolution ℚ}
    (hb : (t.secondPhase f.cost control log).verdict.solution? = some b) :
    (t.secondPhase f.cost control' log).verdict = .unbounded ∨
      ∃ b', (t.secondPhase f.cost control' log).verdict.solution? = some b' ∧
        f.value b'.values ≤ f.value b.values := by
  rw [secondPhase_eq_conclude] at hb ⊢
  obtain rfl := eq_of_solution?_conclude hb
  have hd := ht.of_reaches (descend_spec control t.moveBound log.length log _).1
  have hd' := ht.of_reaches (descend_spec control' t.moveBound log.length log _).1
  rcases conclude_cases ht.toReady control' log.length log (card_le_moveBound t) with
    hunbounded | hsolution
  · exact Or.inl hunbounded
  · refine Or.inr ⟨_, hsolution, ?_⟩
    rw [(hd.solves_solution hf).2, (hd'.solves_solution hf).2]
    rcases descend_outlasts h t.moveBound log.length log (t.closeArtificial.setCost f.cost) with
      heq | htaken
    · rw [heq]
    · exact htaken.reaches.objective_le hd.toReady

end Tableau

/-! ## Runs -/

namespace StandardForm

section Pivots

variable {α : Type} [Scalar α] {control control' : Control}

theorem iterations_firstPhase_le (tolerances : Tolerances α) (control : Control)
    (f : StandardForm α) :
    ((Tableau.start f tolerances.pivot).firstPhase tolerances.feasibility
        control).tableau.iterations
      ≤ (f.minimize tolerances control).iterations := by
  rw [minimize]
  split
  · exact Nat.le_refl _
  · rw [Tableau.iterations_secondPhase]
    exact Nat.le_add_right _ _

/-- A run that may go on for longer comes to the same end, or the other one was stopped and has
made no more pivots. -/
theorem minimize_outlasts (h : control'.Outlasts control) (tolerances : Tolerances α)
    (f : StandardForm α) :
    f.minimize tolerances control' = f.minimize tolerances control ∨
      (∃ why s, (f.minimize tolerances control).verdict = .interrupted why s) ∧
        (f.minimize tolerances control).iterations
          ≤ (f.minimize tolerances control').iterations := by
  rcases Tableau.firstPhase_outlasts h tolerances.feasibility
    (Tableau.start f tolerances.pivot) with heq | ⟨⟨why, hstopped⟩, hle⟩
  · rw [minimize, minimize, heq]
    cases ((Tableau.start f tolerances.pivot).firstPhase tolerances.feasibility
        control).result with
    | error verdict => exact Or.inl rfl
    | ok redundant => exact Tableau.secondPhase_outlasts h f.cost _ _
  · right
    rw [minimize_of_error hstopped]
    exact ⟨⟨why, none, rfl⟩, hle.trans (iterations_firstPhase_le tolerances control' f)⟩

end Pivots

theorem value_le_of_outlasts {control control' : Control} {f : StandardForm ℚ} (hf : f.Proper)
    (h : control'.Outlasts control) {b : BasicSolution ℚ}
    (hb : (f.minimize ⟨0, 0⟩ control).verdict.solution? = some b) :
    (f.minimize ⟨0, 0⟩ control').verdict = .unbounded ∨
      ∃ b', (f.minimize ⟨0, 0⟩ control').verdict.solution? = some b' ∧
        f.value b'.values ≤ f.value b.values := by
  cases hresult : ((Tableau.start f 0).firstPhase 0 control).result with
  | error verdict =>
      rw [minimize_of_error hresult] at hb
      rw [Tableau.solution?_of_firstPhase_eq_error hresult] at hb
      cases hb
  | ok redundant =>
      rw [minimize_of_ok hresult] at hb
      rcases Tableau.firstPhase_outlasts h 0 (Tableau.start f 0) with heq | ⟨⟨why, hstopped⟩, -⟩
      · rw [minimize_of_ok (heq ▸ hresult), heq]
        exact Tableau.secondPhase_value_le hf (Tableau.firstPhase_ok hf hresult) h hb
      · rw [hresult] at hstopped
        cases hstopped

end StandardForm
end LinProg
