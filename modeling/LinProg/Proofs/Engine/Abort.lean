/-
Solves that are stopped by their abort request.

The request is heard before every pivot of a descent, and not before the ones
that take artificial columns out of the basis between the phases.  A solve
that is stopped after so many questions has made a pivot after each of them,
apart from the last one of a first phase; so it stays within that number
if and only if at most one pivot was made between the phases
(`iterations_le_of_userAbort`).  Two of them are enough to go beyond it
(`pivots_after_abort`).

A solve that is stopped later makes the same pivots and more, and with exact
arithmetic its solution is no worse (`waiting_longer`).
-/
import LinProg.Proofs.Engine.Verdict
import LinProg.Proofs.Simplex.Interruption
import LinProg.Engine.Edit

namespace LinProg

theorem Verdict.eq_interrupted_of_status {α : Type} {v : Verdict α}
    (h : v.status = .userAbort) : ∃ s, v = .interrupted .aborted s := by
  cases v with
  | interrupted why s =>
      cases why with
      | aborted => exact ⟨s, rfl⟩
      | timeLimit =>
          cases s with
          | none => cases h
          | some s => cases h
  | infeasible => cases h
  | optimum s => cases h
  | unbounded => cases h
  | numericFailure => cases h
  | cycled => cases h

namespace Engine

section Scalar

variable {α : Type} [Scalar α] {e : Engine α} {clock clock' : Clock} {k : ℕ}

/-- An engine whose abort request lets so many questions pass and says to stop from then on. -/
def stoppedAfter (k : ℕ) (e : Engine α) : Engine α := e.setAbort fun n => decide (k ≤ n)

omit [Scalar α] in
theorem control_stoppedAfter (k : ℕ) (e : Engine α) (clock : Clock) (n : ℕ) :
    (e.stoppedAfter k).control clock n
      = if k ≤ n then some .aborted else e.clearAbort.control clock n := by
  have hheard : ((e.stoppedAfter k).abort.any fun a => a.answer (a.asked + n))
      = decide (k ≤ n) := by
    rw [stoppedAfter, setAbort]
    simp only [Option.any_some, Nat.zero_add]
  rw [control, hheard]
  by_cases hk : k ≤ n
  · rw [if_pos hk, if_pos (decide_eq_true hk)]
  · rw [if_neg hk, if_neg (by rwa [decide_eq_true_eq])]
    rfl

omit [Scalar α] in
theorem control_clearAbort_ne (e : Engine α) (clock : Clock) (n : ℕ) :
    e.clearAbort.control clock n ≠ some .aborted := by
  rw [control]
  split
  · rename_i hheard
    cases hheard
  · split
    · exact nofun
    · exact nofun

omit [Scalar α] in
theorem control_stoppedAfter_iff (k : ℕ) (e : Engine α) (clock : Clock) (n : ℕ) :
    (e.stoppedAfter k).control clock n = some .aborted ↔ k ≤ n := by
  rw [control_stoppedAfter]
  split
  · rename_i hk
    exact iff_of_true rfl hk
  · rename_i hk
    exact iff_of_false (control_clearAbort_ne e clock n) hk

theorem iterations_solve_of_ok {f : StandardForm α} (clock : Clock)
    (hok : e.model.standardForm e.config.infinity = .ok f) :
    (e.solve clock).iterations = (f.minimize e.tolerances (e.control clock)).iterations := by
  rw [solve, hok]

/-! ## The pivots of a solve that is stopped -/

/-- The number of pivots that a solve makes between its phases, without asking. -/
def unaskedPivots (clock : Clock) (e : Engine α) : ℕ :=
  match e.model.standardForm e.config.infinity with
  | .error _ => 0
  | .ok f => (f.expulsions e.tolerances (e.control clock)).length

/-- A solve that its abort request stops after so many questions makes no more pivots than these,
beside those that no question comes before; it makes no more in all if and only if at most one
pivot is made without a question; and where it has no solution to show it makes just as many. -/
theorem iterations_le_of_userAbort (e : Engine α) (k : ℕ) (clock : Clock)
    (h : ((e.stoppedAfter k).solve clock).status = .userAbort) :
    ((e.stoppedAfter k).solve clock).iterations ≤ k + (e.stoppedAfter k).unaskedPivots clock ∧
      (((e.stoppedAfter k).solve clock).iterations ≤ k
        ↔ (e.stoppedAfter k).unaskedPivots clock ≤ 1) ∧
      (((e.stoppedAfter k).solve clock).solution = none →
        ((e.stoppedAfter k).solve clock).iterations = k) := by
  cases hresult : (e.stoppedAfter k).model.standardForm (e.stoppedAfter k).config.infinity with
  | error o =>
      rw [solve, hresult] at h
      cases h
  | ok f =>
      obtain ⟨hstatus, hsolution⟩ := solve_of_ok clock hresult
      obtain ⟨s, hverdict⟩ := Verdict.eq_interrupted_of_status (hstatus.symm.trans h)
      rw [hverdict] at hsolution
      rw [hsolution, iterations_solve_of_ok clock hresult, unaskedPivots, hresult]
      simp only
      rcases StandardForm.iterations_of_interrupted (control_stoppedAfter_iff k e clock) hverdict
        with ⟨hnone, hk⟩ | ⟨hsome, hk⟩
      · rw [hnone, hk, List.length_nil]
        omega
      · refine ⟨by omega, by omega, fun hmap => ?_⟩
        exact absurd (Option.map_eq_none_iff.mp hmap) hsome

/-- An engine with the options that hold unless others are given, for two variables that are each
to be zero, by rows that no move of the first phase is profitable for. -/
def pinned : Engine ℚ :=
  (create 0 2 .standard).performAll
    [.appendConstraint ⟨1, [-1], [1]⟩ .equal 0, .appendConstraint ⟨1, [-1], [2]⟩ .equal 0]

theorem iterations_le_of_userAbort_pinned :
    ((pinned.stoppedAfter 1).solve fun _ => 0).status = .userAbort ∧
      (pinned.stoppedAfter 1).unaskedPivots (fun _ => 0) = 2 ∧
      ((pinned.stoppedAfter 1).solve fun _ => 0).iterations
        ≤ 1 + (pinned.stoppedAfter 1).unaskedPivots fun _ => 0 := by
  have hstatus : ((pinned.stoppedAfter 1).solve fun _ => 0).status = .userAbort := by
    decide +kernel
  exact ⟨hstatus, by decide +kernel, (iterations_le_of_userAbort pinned 1 _ hstatus).1⟩

/-- One question is passed, and two pivots are made. -/
theorem pivots_after_abort :
    ((pinned.stoppedAfter 1).solve fun _ => 0).status = .userAbort ∧
      ¬ ((pinned.stoppedAfter 1).solve fun _ => 0).iterations ≤ 1 :=
  ⟨by decide +kernel, by decide +kernel⟩

/-! ## Solves that are stopped later -/

/-- Two engines have the same outcome of their latest solve. -/
structure SameOutcome (e e' : Engine α) : Prop where
  status : e'.status = e.status
  solution : e'.solution = e.solution
  iterations : e'.iterations = e.iterations

omit [Scalar α] in
theorem control_of_timeLimit_eq_none (hlimit : e.config.timeLimit = none) (clock : Clock)
    (n : ℕ) :
    e.control clock n = if e.abort.any fun a => a.answer (a.asked + n) then some .aborted
      else none := by
  rw [control, hlimit]
  rfl

omit [Scalar α] in
theorem control_clearAbort (hlimit : e.config.timeLimit = none) (clock : Clock) :
    e.clearAbort.control clock = Control.never := by
  funext n
  exact control_of_timeLimit_eq_none (e := e.clearAbort) hlimit clock n

omit [Scalar α] in
theorem outlasts_stoppedAfter {k' : ℕ} (hlimit : e.config.timeLimit = none) (hk : k ≤ k')
    (clock clock' : Clock) :
    ((e.stoppedAfter k').control clock').Outlasts ((e.stoppedAfter k).control clock) := by
  intro n hn
  rw [control_stoppedAfter] at hn ⊢
  split at hn
  · cases hn
  · rename_i hlt
    rw [if_neg fun hle => hlt (hk.trans hle), control_clearAbort hlimit]
    rfl

omit [Scalar α] in
theorem outlasts_clearAbort (hlimit : e.config.timeLimit = none) (clock : Clock)
    (control : Control) : (e.clearAbort.control clock).Outlasts control := by
  rw [control_clearAbort hlimit]
  exact control.outlasts_never

theorem status_of_interrupted (hlimit : e.config.timeLimit = none) {f : StandardForm α}
    {why : Interrupt} {s : Option (BasicSolution α)}
    (h : (f.minimize e.tolerances (e.control clock)).verdict = .interrupted why s) :
    (f.minimize e.tolerances (e.control clock)).verdict.status = .userAbort := by
  obtain ⟨n, hn⟩ := StandardForm.exists_of_interrupted h
  rw [control_of_timeLimit_eq_none hlimit] at hn
  split at hn
  · cases hn
    rw [h]
    rfl
  · cases hn

theorem outcome_solve (abort : Option AbortRequest) (clock : Clock) {f : StandardForm α}
    (hok : e.model.standardForm e.config.infinity = .ok f) :
    let r := solve clock { e with abort := abort }
    let o := f.minimize e.tolerances (control { e with abort := abort } clock)
    r.status = o.verdict.status ∧
      r.solution = o.verdict.solution?.map (Solution.ofBasic e.model f) ∧
      r.iterations = o.iterations := by
  simp only [solve, hok]
  exact ⟨rfl, rfl, rfl⟩

/-- A solve that may go on for longer has the same outcome, or the other one was stopped and has
made no more pivots. -/
theorem solve_outlasts {abort abort' : Option AbortRequest}
    (hlimit : e.config.timeLimit = none)
    (h : (control { e with abort := abort' } clock').Outlasts
      (control { e with abort := abort } clock)) :
    SameOutcome (solve clock { e with abort := abort }) (solve clock' { e with abort := abort' }) ∨
      (solve clock { e with abort := abort }).status = .userAbort ∧
        (solve clock { e with abort := abort }).iterations
          ≤ (solve clock' { e with abort := abort' }).iterations := by
  cases hresult : e.model.standardForm e.config.infinity with
  | error o =>
      left
      simp only [solve, hresult]
      exact ⟨rfl, rfl, rfl⟩
  | ok f =>
      obtain ⟨hstatus, hsolution, hiterations⟩ := outcome_solve abort clock hresult
      obtain ⟨hstatus', hsolution', hiterations'⟩ := outcome_solve abort' clock' hresult
      rcases StandardForm.minimize_outlasts h e.tolerances f with heq | ⟨⟨why, s, hverdict⟩, hle⟩
      · left
        rw [heq] at hstatus' hsolution' hiterations'
        exact ⟨hstatus'.trans hstatus.symm, hsolution'.trans hsolution.symm,
          hiterations'.trans hiterations.symm⟩
      · right
        rw [hstatus, hiterations, hiterations']
        exact ⟨status_of_interrupted (e := { e with abort := abort }) hlimit hverdict, hle⟩

end Scalar

section Exact

variable {e : Engine ℚ} {clock clock' : Clock}

theorem objective?_of_solution {e : Engine ℚ} {m : Model ℚ} {f : StandardForm ℚ}
    {s : Option (BasicSolution ℚ)} (h : e.solution = s.map (Solution.ofBasic m f)) :
    e.objective? = s.map fun b => m.cost.dot (f.point b.values) := by
  rw [objective?, h]
  cases s with
  | none => rfl
  | some b => rfl

/-- A solve that may go on for longer than one with a solution comes to one that is no worse, or
finds that there is no limit to the objective. -/
theorem not_better_of_outlasts (hepsilon : e.config.epsilon = 0)
    (hfeasibility : e.config.feasibilityTolerance = 0) {abort abort' : Option AbortRequest}
    (h : (control { e with abort := abort' } clock').Outlasts
      (control { e with abort := abort } clock))
    (hsolution : (solve clock { e with abort := abort }).solution ≠ none) :
    (solve clock' { e with abort := abort' }).status = .unbounded ∨
      ∃ z z', (solve clock { e with abort := abort }).objective? = some z ∧
        (solve clock' { e with abort := abort' }).objective? = some z' ∧
        ¬ e.model.sense.Better z z' := by
  cases hresult : e.model.standardForm e.config.infinity with
  | error o =>
      rw [solve, hresult] at hsolution
      exact absurd rfl hsolution
  | ok f =>
      have htolerances : e.tolerances = ⟨0, 0⟩ := by
        rw [tolerances, hepsilon, hfeasibility]
      obtain ⟨-, hs, -⟩ := outcome_solve abort clock hresult
      obtain ⟨hstatus', hs', -⟩ := outcome_solve abort' clock' hresult
      rw [htolerances] at hs hs' hstatus'
      rw [hs] at hsolution
      obtain ⟨b, hb⟩ := Option.ne_none_iff_exists'.mp fun hnone =>
        hsolution (Option.map_eq_none_iff.mpr hnone)
      rcases StandardForm.value_le_of_outlasts (Model.proper_of_standardForm hresult) h hb with
        hunbounded | ⟨b', hb', hle⟩
      · left
        rw [hstatus', hunbounded]
        rfl
      · right
        have hz := objective?_of_solution hs
        have hz' := objective?_of_solution hs'
        rw [hb] at hz
        rw [hb'] at hz'
        refine ⟨_, _, hz, hz', ?_⟩
        intro hbetter
        rw [Sense.better_iff, Model.cost_point hresult, Model.cost_point hresult] at hbetter
        linarith

end Exact

/-- Waiting longer before a solve is aborted never gives a worse answer.  With exact arithmetic and
without a time limit, a solve that is aborted after more questions makes no fewer pivots; it has the
outcome of the shorter one, and of a solve that is not aborted, if the shorter one was not; and if
the shorter one has a solution it has one that is no worse, or there is no limit to the objective. -/
theorem waiting_longer {e : Engine ℚ} (hepsilon : e.config.epsilon = 0)
    (hfeasibility : e.config.feasibilityTolerance = 0) (hlimit : e.config.timeLimit = none)
    {k k' : ℕ} (hk : k ≤ k') (clock clock' clock'' : Clock) :
    let r := (e.stoppedAfter k).solve clock
    let r' := (e.stoppedAfter k').solve clock'
    r.iterations ≤ r'.iterations ∧
      (r.status ≠ .userAbort →
        SameOutcome r r' ∧ SameOutcome r (e.clearAbort.solve clock'')) ∧
      (r.solution ≠ none → r'.status = .unbounded ∨
        ∃ z z', r.objective? = some z ∧ r'.objective? = some z' ∧
          ¬ e.model.sense.Better z z') := by
  intro r r'
  have houtlasts := outlasts_stoppedAfter hlimit hk clock clock'
  have hlonger := solve_outlasts hlimit houtlasts
  refine ⟨?_, ?_, ?_⟩
  · rcases hlonger with hsame | ⟨-, hle⟩
    · exact hsame.iterations.ge
    · exact hle
  · intro hstatus
    refine ⟨hlonger.resolve_right fun h => hstatus h.1, ?_⟩
    refine (solve_outlasts hlimit ?_).resolve_right fun h => hstatus h.1
    exact outlasts_clearAbort hlimit clock'' _
  · intro hsolution
    exact not_better_of_outlasts hepsilon hfeasibility houtlasts hsolution

/-- The small model, aborted after two questions and after three. -/
theorem waiting_longer_mixed :
    ((mixed.stoppedAfter 2).solve fun _ => 0).solution ≠ none ∧
      ((mixed.stoppedAfter 3).solve fun _ => 0).status ≠ .unbounded ∧
      ∃ z z', ((mixed.stoppedAfter 2).solve fun _ => 0).objective? = some z ∧
        ((mixed.stoppedAfter 3).solve fun _ => 0).objective? = some z' ∧
        ¬ mixed.model.sense.Better z z' := by
  obtain ⟨-, -, hworse⟩ := waiting_longer (e := mixed) rfl rfl rfl (Nat.le_succ 2) (fun _ => 0)
    (fun _ => 0) fun _ => 0
  have hsolution : ((mixed.stoppedAfter 2).solve fun _ => 0).solution ≠ none := by
    decide +kernel
  have hstatus : ((mixed.stoppedAfter 3).solve fun _ => 0).status ≠ .unbounded := by
    decide +kernel
  exact ⟨hsolution, hstatus, (hworse hsolution).resolve_left hstatus⟩

end Engine
end LinProg
