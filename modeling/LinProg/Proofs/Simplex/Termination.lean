/-
The simplex method comes to an end.

Both phases run from a tableau that is ready, and from there no sequence of
moves is as long as there are ways to choose a basic column for every row.
So neither of them is given up, and when nobody stops them the verdict is
about the problem.
-/
import LinProg.Proofs.Simplex.SecondPhase
import LinProg.Proofs.StandardForm.Conversion

namespace LinProg

namespace Tableau

/-- No sequence of moves is as long as there are ways to choose a basic column for every row. -/
def Terminates (t : Tableau ℚ) : Prop :=
  ∀ (T : ℕ → Tableau ℚ) (n : ℕ), T 0 = t → (∀ k < n, Step (T k) (T (k + 1))) →
    n < t.nrColumns ^ t.nrRows

theorem Ready.terminates {t : Tableau ℚ} (ht : t.Ready) : t.Terminates := by
  rintro T n rfl hstep
  have hrun : Run T n := ⟨ht, hstep⟩
  exact hrun.lt_card

variable {t : Tableau ℚ} {why : Interrupt} {s : Option (BasicSolution ℚ)}

theorem firstPhase_ne_interrupted (feasibility : ℚ) :
    (t.firstPhase feasibility Control.never).result ≠ .error (.interrupted why s) := by
  have hnever : ∀ why, (descend Control.never t.moveBound 0 [] t.setArtificialCost).halt
      ≠ .interrupted why := fun why => halt_ne_interrupted why
  rw [firstPhase]
  split
  · intro h
    cases h
  · generalize descend Control.never t.moveBound 0 [] t.setArtificialCost = d at hnever ⊢
    simp only
    cases hhalt : d.halt with
    | interrupted why => exact absurd hhalt (hnever why)
    | unlimited =>
        intro h
        cases h
    | exhausted =>
        intro h
        cases h
    | finished =>
        simp only
        split
        · intro h
          cases h
        · split
          · intro h
            cases h
          · intro h
            cases h

theorem secondPhase_ne_interrupted (cost : List ℚ) (log : List (ℕ × ℚ)) :
    (t.secondPhase cost Control.never log).verdict ≠ .interrupted why s := by
  have hnever : ∀ why, (descend Control.never t.moveBound log.length log
      (t.closeArtificial.setCost cost)).halt ≠ .interrupted why := fun why =>
    halt_ne_interrupted why
  rw [secondPhase]
  generalize descend Control.never t.moveBound log.length log (t.closeArtificial.setCost cost) = d
    at hnever ⊢
  simp only
  cases hhalt : d.halt with
  | interrupted why => exact absurd hhalt (hnever why)
  | unlimited =>
      intro h
      cases h
  | exhausted =>
      intro h
      cases h
  | finished =>
      simp only
      split
      · intro h
        cases h
      · intro h
        cases h

end Tableau

namespace StandardForm

theorem minimize_ne_interrupted (f : StandardForm ℚ) (tolerances : Tolerances ℚ)
    (why : Interrupt) (s : Option (BasicSolution ℚ)) :
    (f.minimize tolerances Control.never).verdict ≠ .interrupted why s := by
  rw [minimize]
  split
  · rename_i v hv
    intro h
    rw [show v = .interrupted why s from h] at hv
    exact Tableau.firstPhase_ne_interrupted _ hv
  · exact Tableau.secondPhase_ne_interrupted _ _

end StandardForm

namespace Model

open Tableau

/-- With exact arithmetic and without tolerances the simplex method ends on every standard form of
a model: neither phase makes as many moves as there are ways to choose a basic column for every
row, in the first phase every profitable column has a row to enter on, and the verdict of a run
that nobody stops is that there is no solution, that one is optimal or that the cost can be
lowered without limit. -/
theorem simplex_terminates {infinity : ℚ} {m : Model ℚ} {f : StandardForm ℚ}
    (h : m.standardForm infinity = .ok f) :
    (start f 0).setArtificialCost.Terminates ∧
      (∀ t, Reaches (start f 0).setArtificialCost t → ∀ c < t.nrColumns,
        t.relativeCost c < 0 → ∃ r, t.leavingRow? c = some r) ∧
      (∀ redundant, ((start f 0).firstPhase 0 Control.never).result = .ok redundant →
        (((start f 0).firstPhase 0 Control.never).tableau.closeArtificial.setCost
          f.cost).Terminates) ∧
      ((f.minimize ⟨0, 0⟩ Control.never).verdict = .infeasible ∨
        (∃ s, (f.minimize ⟨0, 0⟩ Control.never).verdict = .optimum s) ∨
        (f.minimize ⟨0, 0⟩ Control.never).verdict = .unbounded) := by
  have hf := proper_of_standardForm h
  refine ⟨(ready_first hf).terminates, ?_, ?_, ?_⟩
  · intro t ht c hc hneg
    exact (relaxed_of_reaches hf ht).exists_leavingRow hc hneg
  · intro redundant hok
    exact (firstPhase_ok hf hok).toReady.terminates
  · have hsound := StandardForm.minimize_sound hf Control.never
    have hnever := StandardForm.minimize_ne_interrupted f ⟨0, 0⟩
    generalize (f.minimize ⟨0, 0⟩ Control.never).verdict = v at hsound hnever ⊢
    cases v with
    | infeasible => exact Or.inl rfl
    | optimum s => exact Or.inr (Or.inl ⟨s, rfl⟩)
    | unbounded => exact Or.inr (Or.inr rfl)
    | interrupted why s => exact absurd rfl (hnever why s)
    | numericFailure => exact hsound.elim
    | cycled => exact hsound.elim

theorem simplex_terminates_mixed :
    mixed.standardForm 100 = .ok (mixed.converted 100) ∧
      (start (mixed.converted 100) 0).setArtificialCost.Terminates :=
  have hok : mixed.standardForm 100 = .ok (mixed.converted 100) := by decide +kernel
  ⟨hok, (simplex_terminates hok).1⟩

end Model
end LinProg
