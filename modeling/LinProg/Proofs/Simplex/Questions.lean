/-
The questions of a run whether to stop.

A descent asks before every pivot, and once more before it finds that no move
is left.  So it makes fewer pivots than it asks questions, and when it is
stopped the question that was not passed comes right after the pivots.  Between
the phases nobody is asked: the pivots that take artificial columns out of the
basis (`expulsions`) are made in one go, after the last question of the first
phase and before the first one of the second.
-/
import LinProg.Proofs.Access.Simplex
import LinProg.Proofs.Simplex.Pivots

namespace LinProg

variable {α : Type} [Scalar α]

namespace Tableau

variable {control : Control} {fuel asked : ℕ} {log : List (ℕ × α)} {t : Tableau α}

/-! ## Descents -/

/-- What a descent was told that made so many pivots and came to such an end. -/
structure Told (control : Control) (asked pivots : ℕ) (halt : Halt) : Prop where
  passed : ∀ k < pivots, control (asked + k) = none
  finished : halt = .finished → control (asked + pivots) = none
  interrupted : ∀ why, halt = .interrupted why → control (asked + pivots) = some why

theorem lt_of_eq_none {why : Interrupt} {k : ℕ} (hstop : ∀ n, control n = some why ↔ k ≤ n)
    (n : ℕ) (h : control n = none) : n < k := by
  refine Nat.not_le.mp fun hk => ?_
  rw [(hstop n).mpr hk] at h
  cases h

namespace Told

variable {pivots k : ℕ} {halt : Halt}

/-- Where at most `k` questions are passed no more pivots are made. -/
theorem le (h : Told control asked pivots halt) (hpassed : ∀ n, control n = none → n < k)
    (hasked : asked ≤ k) : asked + pivots ≤ k := by
  cases pivots with
  | zero => exact hasked
  | succ n => exact hpassed _ (h.passed n (Nat.lt_succ_self n))

/-- Where exactly `k` questions are passed a descent that is stopped has made a pivot after each of
those that it asked. -/
theorem eq_of_interrupted {why : Interrupt} (h : Told control asked pivots (.interrupted why))
    (hstop : ∀ n, control n = some why ↔ k ≤ n) (hasked : asked ≤ k) : asked + pivots = k :=
  Nat.le_antisymm (h.le (lt_of_eq_none hstop) hasked) ((hstop _).mp (h.interrupted why rfl))

theorem of_no_pivot (hfinished : halt = .finished → control asked = none)
    (hinterrupted : ∀ why, halt = .interrupted why → control asked = some why) :
    Told control asked 0 halt where
  passed k hk := absurd hk (Nat.not_lt_zero k)
  finished := hfinished
  interrupted := hinterrupted

end Told

theorem told_descend (control : Control) (fuel asked : ℕ) (log : List (ℕ × α)) (t : Tableau α) :
    Told control asked (descentPivots control fuel asked t).length
      (descend control fuel asked log t).halt := by
  induction fuel generalizing asked log t with
  | zero =>
      refine Told.of_no_pivot (fun h => ?_) fun why h => ?_
      · cases h
      · cases h
  | succ fuel ih =>
      rw [descend, descentPivots]
      cases hasked : control asked with
      | some why =>
          refine Told.of_no_pivot (fun h => ?_) fun why h => ?_
          · cases h
          · cases h
            exact hasked
      | none =>
          cases t.move with
          | finished =>
              refine Told.of_no_pivot (fun _ => hasked) fun why h => ?_
              cases h
          | unlimited column =>
              refine Told.of_no_pivot (fun h => ?_) fun why h => ?_
              · cases h
              · cases h
          | pivot column row =>
              obtain ⟨hpassed, hfinished, hinterrupted⟩ :=
                ih (asked + 1) ((t.iterations, t.objective) :: log) (t.pivot column row)
              rw [Nat.add_right_comm] at hfinished hinterrupted
              refine ⟨?_, hfinished, hinterrupted⟩
              intro k hk
              cases k with
              | zero => exact hasked
              | succ k =>
                  have hk : control (asked + 1 + k) = none := hpassed k (Nat.lt_of_succ_lt_succ hk)
                  rwa [Nat.add_right_comm] at hk

/-- Unless a descent is given up it asks at every tableau that it passes. -/
theorem log_descend (h : (descend control fuel asked log t).halt ≠ .exhausted) :
    (descend control fuel asked log t).log
      = ((trail (descentPivots control fuel asked t) t).map
          fun t => (t.iterations, t.objective)).reverse ++ log := by
  induction fuel generalizing asked log t with
  | zero => exact absurd rfl h
  | succ fuel ih =>
      rw [descend] at h ⊢
      rw [descentPivots]
      cases hasked : control asked with
      | some why => rfl
      | none =>
          cases hmove : t.move with
          | finished => rfl
          | unlimited column => rfl
          | pivot column row =>
              simp only [hasked, hmove] at h
              simp only
              rw [ih h, trail, List.map_cons, List.reverse_cons, List.append_assoc]
              rfl

/-- So it asks one question more than it makes pivots. -/
theorem length_log_descend (h : (descend control fuel asked log t).halt ≠ .exhausted) :
    (descend control fuel asked log t).log.length
      = log.length + (descentPivots control fuel asked t).length + 1 := by
  rw [log_descend h, List.length_append, List.length_reverse, List.length_map, length_trail]
  omega

/-! ## Between the phases -/

theorem firstPhase_eq_settle (h : t.enterable ≠ t.firstArtificial) (feasibility : α)
    (control : Control) :
    t.firstPhase feasibility control
      = settle feasibility (descend control t.moveBound 0 [] t.setArtificialCost) := if_neg h

theorem log_settle (feasibility : α) (d : Descent α) : (settle feasibility d).log = d.log := by
  rw [settle]
  split
  · rfl
  · rfl
  · rfl
  · split
    · rfl
    · split
      · rfl
      · rfl

theorem halt_of_settle_eq_ok {feasibility : α} {d : Descent α} {redundant : List ℕ}
    (h : (settle feasibility d).result = .ok redundant) : d.halt = .finished := by
  rw [settle] at h
  split at h
  · cases h
  · cases h
  · cases h
  · rename_i hhalt
    exact hhalt

theorem halt_of_settle_eq_interrupted {feasibility : α} {d : Descent α} {why : Interrupt}
    {s : Option (BasicSolution α)}
    (h : (settle feasibility d).result = .error (.interrupted why s)) :
    d.halt = .interrupted why := by
  rw [settle] at h
  split at h
  · rename_i hhalt
    cases h
    exact hhalt
  · cases h
  · cases h
  · split at h
    · cases h
    · split at h
      · cases h
      · cases h

/-- The places that are pivoted on after the descent of the first phase, to take artificial columns
out of the basis. -/
def settlePivots (feasibility : α) (d : Descent α) : List (ℕ × ℕ) :=
  match d.halt with
  | .finished =>
      if d.tableau.isSound && decide (d.tableau.objective ≤ feasibility) then
        expelPivots (List.range d.tableau.nrRows) d.tableau
      else []
  | _ => []

/-- The places that the first phase pivots on when it no longer asks. -/
def expulsions (feasibility : α) (control : Control) (t : Tableau α) : List (ℕ × ℕ) :=
  if t.enterable = t.firstArtificial then []
  else settlePivots feasibility (descend control t.moveBound 0 [] t.setArtificialCost)

/-- The places that the first phase pivots on as long as it asks. -/
def firstDescent (control : Control) (t : Tableau α) : List (ℕ × ℕ) :=
  if t.enterable = t.firstArtificial then []
  else descentPivots control t.moveBound 0 t.setArtificialCost

theorem firstPhasePivots_eq (feasibility : α) (control : Control) (t : Tableau α) :
    t.firstPhasePivots feasibility control
      = t.firstDescent control ++ t.expulsions feasibility control := by
  rw [firstPhasePivots, firstDescent, expulsions, settlePivots]
  split
  · rfl
  · simp only
    cases (descend control t.moveBound 0 [] t.setArtificialCost).halt with
    | finished =>
        simp only
        split
        · rfl
        · exact (List.append_nil _).symm
    | unlimited => exact (List.append_nil _).symm
    | interrupted why => exact (List.append_nil _).symm
    | exhausted => exact (List.append_nil _).symm

/-! ## The first phase -/

/-- A first phase that is passed has asked nothing and made no pivot, or it was told to go on by
each of its questions, of which there is one more than there are pivots. -/
theorem told_of_firstPhase_eq_ok {feasibility : α} {redundant : List ℕ}
    (h : (t.firstPhase feasibility control).result = .ok redundant) :
    (t.firstDescent control = [] ∧ t.expulsions feasibility control = [] ∧
        (t.firstPhase feasibility control).log = []) ∨
      ((t.firstPhase feasibility control).log.length = (t.firstDescent control).length + 1 ∧
        Told control 0 (t.firstDescent control).length .finished) := by
  by_cases hnone : t.enterable = t.firstArtificial
  · exact Or.inl ⟨if_pos hnone, if_pos hnone, congrArg FirstPhase.log (if_pos hnone)⟩
  · rw [firstPhase_eq_settle hnone] at h ⊢
    have hhalt := halt_of_settle_eq_ok h
    have htold := told_descend control t.moveBound 0 [] t.setArtificialCost
    have hlength := length_log_descend (hhalt.trans_ne nofun)
    rw [hhalt] at htold
    rw [firstDescent, if_neg hnone, log_settle, hlength]
    exact Or.inr ⟨by rw [List.length_nil, Nat.zero_add], htold⟩

theorem told_of_firstPhase_eq_interrupted {feasibility : α} {why : Interrupt}
    {s : Option (BasicSolution α)}
    (h : (t.firstPhase feasibility control).result = .error (.interrupted why s)) :
    t.expulsions feasibility control = [] ∧
      Told control 0 (t.firstDescent control).length (.interrupted why) := by
  by_cases hnone : t.enterable = t.firstArtificial
  · rw [firstPhase, if_pos hnone] at h
    cases h
  · rw [firstPhase_eq_settle hnone] at h
    have hhalt := halt_of_settle_eq_interrupted h
    have htold := told_descend control t.moveBound 0 [] t.setArtificialCost
    rw [hhalt] at htold
    rw [firstDescent, expulsions, if_neg hnone, if_neg hnone, settlePivots, hhalt]
    exact ⟨rfl, htold⟩

/-! ## The second phase -/

theorem secondPhase_eq_conclude (cost : List α) (control : Control) (log : List (ℕ × α))
    (t : Tableau α) :
    t.secondPhase cost control log =
      let d := descend control t.moveBound log.length log (t.closeArtificial.setCost cost)
      ⟨conclude d, d.tableau.iterations, d.log.reverse⟩ := rfl

theorem conclude_of_interrupted {d : Descent α} {why : Interrupt}
    (h : d.halt = .interrupted why) :
    conclude d = .interrupted why (some d.tableau.solution) := by
  rw [conclude, h]

theorem of_conclude_eq_interrupted {d : Descent α} {why : Interrupt}
    {s : Option (BasicSolution α)} (h : conclude d = .interrupted why s) :
    d.halt = .interrupted why ∧ s = some d.tableau.solution := by
  rw [conclude] at h
  split at h
  · rename_i hhalt
    cases h
    exact ⟨hhalt, rfl⟩
  · cases h
  · cases h
  · split at h
    · cases h
    · cases h

end Tableau

/-! ## Runs -/

namespace StandardForm

variable {control : Control} {tolerances : Tolerances α} {f : StandardForm α} {k : ℕ}

theorem minimize_of_error {v : Verdict α}
    (h : ((Tableau.start f tolerances.pivot).firstPhase tolerances.feasibility control).result
      = .error v) :
    f.minimize tolerances control =
      let first := (Tableau.start f tolerances.pivot).firstPhase tolerances.feasibility control
      ⟨v, first.tableau.iterations, first.log.reverse⟩ := by
  rw [minimize, h]

theorem minimize_of_ok {redundant : List ℕ}
    (h : ((Tableau.start f tolerances.pivot).firstPhase tolerances.feasibility control).result
      = .ok redundant) :
    f.minimize tolerances control =
      let first := (Tableau.start f tolerances.pivot).firstPhase tolerances.feasibility control
      first.tableau.secondPhase f.cost control first.log := by
  rw [minimize, h]

/-- The places that a run pivots on between its phases, without asking. -/
def expulsions (tolerances : Tolerances α) (control : Control) (f : StandardForm α) :
    List (ℕ × ℕ) :=
  (Tableau.start f tolerances.pivot).expulsions tolerances.feasibility control

/-- The places that a run pivots on in its second phase, if it comes to that. -/
def secondDescent (tolerances : Tolerances α) (control : Control) (f : StandardForm α) :
    List (ℕ × ℕ) :=
  let first := (Tableau.start f tolerances.pivot).firstPhase tolerances.feasibility control
  match first.result with
  | .error _ => []
  | .ok _ => Tableau.descentPivots control first.tableau.moveBound first.log.length
      (first.tableau.closeArtificial.setCost f.cost)

/-- The pivots of a run are those of its descents and those between them. -/
theorem iterations_minimize_eq (tolerances : Tolerances α) (control : Control)
    (f : StandardForm α) :
    (f.minimize tolerances control).iterations
      = ((Tableau.start f tolerances.pivot).firstDescent control).length
        + (f.expulsions tolerances control).length
        + (f.secondDescent tolerances control).length := by
  rw [iterations_minimize, pivots, secondDescent]
  simp only [Tableau.firstPhasePivots_eq, List.length_append]
  rfl

theorem told_secondDescent {redundant : List ℕ}
    (hok : ((Tableau.start f tolerances.pivot).firstPhase tolerances.feasibility control).result
      = .ok redundant) :
    let first := (Tableau.start f tolerances.pivot).firstPhase tolerances.feasibility control
    Tableau.Told control first.log.length (f.secondDescent tolerances control).length
      (Tableau.descend control first.tableau.moveBound first.log.length first.log
        (first.tableau.closeArtificial.setCost f.cost)).halt := by
  rw [secondDescent, hok]
  exact Tableau.told_descend control _ _ _ _

theorem secondDescent_of_error {verdict : Verdict α}
    (herror : ((Tableau.start f tolerances.pivot).firstPhase tolerances.feasibility control).result
      = .error verdict) : f.secondDescent tolerances control = [] := by
  rw [secondDescent, herror]

/-- A run that is stopped was told so in one of its descents: in the first, and then it has made no
pivot without asking, or in the second, and then it has a solution. -/
theorem told_of_interrupted {why : Interrupt} {s : Option (BasicSolution α)}
    (h : (f.minimize tolerances control).verdict = .interrupted why s) :
    let t := Tableau.start f tolerances.pivot
    let first := t.firstPhase tolerances.feasibility control
    (f.expulsions tolerances control = [] ∧ f.secondDescent tolerances control = [] ∧
        Tableau.Told control 0 (t.firstDescent control).length (.interrupted why)) ∨
      s ≠ none ∧ (∃ redundant, first.result = .ok redundant) ∧
        Tableau.Told control first.log.length (f.secondDescent tolerances control).length
          (.interrupted why) := by
  cases hresult : ((Tableau.start f tolerances.pivot).firstPhase tolerances.feasibility
      control).result with
  | error verdict =>
      obtain rfl : verdict = .interrupted why s := by rwa [minimize_of_error hresult] at h
      obtain ⟨hnone, htold⟩ := Tableau.told_of_firstPhase_eq_interrupted hresult
      exact Or.inl ⟨hnone, secondDescent_of_error hresult, htold⟩
  | ok redundant =>
      rw [minimize_of_ok hresult, Tableau.secondPhase_eq_conclude] at h
      obtain ⟨hhalt, hsolution⟩ := Tableau.of_conclude_eq_interrupted h
      have htold := told_secondDescent hresult
      simp only at htold
      rw [hhalt] at htold
      exact Or.inr ⟨hsolution.trans_ne nofun, ⟨redundant, hresult⟩, htold⟩

/-- A run is stopped for a reason that its control has given. -/
theorem exists_of_interrupted {why : Interrupt} {s : Option (BasicSolution α)}
    (h : (f.minimize tolerances control).verdict = .interrupted why s) :
    ∃ n, control n = some why := by
  rcases told_of_interrupted h with ⟨-, -, htold⟩ | ⟨-, -, htold⟩
  · exact ⟨_, htold.interrupted why rfl⟩
  · exact ⟨_, htold.interrupted why rfl⟩

/-- A run that is stopped where exactly `k` questions are passed has made `k` pivots; or else it is
in the second phase after a descent in the first, whose last question was passed without a pivot,
and then the pivots between the phases come on top. -/
theorem iterations_of_interrupted {why : Interrupt} {s : Option (BasicSolution α)}
    (hstop : ∀ n, control n = some why ↔ k ≤ n)
    (h : (f.minimize tolerances control).verdict = .interrupted why s) :
    (f.expulsions tolerances control = [] ∧ (f.minimize tolerances control).iterations = k) ∨
      s ≠ none ∧ (f.minimize tolerances control).iterations + 1
        = k + (f.expulsions tolerances control).length := by
  rw [iterations_minimize_eq]
  rcases told_of_interrupted h with ⟨hnone, hsecond, htold⟩ | ⟨hsome, ⟨redundant, hok⟩, htold⟩
  · have hk := htold.eq_of_interrupted hstop (Nat.zero_le k)
    rw [Nat.zero_add] at hk
    rw [hnone, hsecond]
    exact Or.inl ⟨rfl, hk⟩
  · rcases Tableau.told_of_firstPhase_eq_ok hok with ⟨hfirst, hnone, hlog⟩ | ⟨hlog, hfirst⟩
    · have hk := htold.eq_of_interrupted hstop (by rw [hlog]; exact Nat.zero_le k)
      rw [hlog, List.length_nil, Nat.zero_add] at hk
      refine Or.inl ⟨hnone, ?_⟩
      rw [hfirst, expulsions, hnone, hk]
      exact Nat.zero_add k
    · have hasked := Tableau.lt_of_eq_none hstop _ (hfirst.finished rfl)
      rw [Nat.zero_add] at hasked
      rw [hlog] at htold
      have hk := htold.eq_of_interrupted hstop hasked
      exact Or.inr ⟨hsome, by omega⟩

end StandardForm
end LinProg
