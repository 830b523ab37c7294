/-
The outcome that an engine stores belongs to its model.

An edit is of one of three kinds.  It writes what a solve computes from, and
then the outcome is gone; or it names something, changes a mode or changes
nothing, and then the outcome is kept, as is all that it was computed from; or
it is a solve.  So an outcome that is there is one of the model as it stands,
and the iterations are the pivots of the latest solve of it.

A solve that fails for want of a standard form does not write the iterations.
They are zero nevertheless: no solve of the same model can have succeeded
before, since the standard form does not depend on names.
-/
import LinProg.Proofs.Simplex.Pivots
import LinProg.Proofs.Engine.Sheet
import LinProg.Proofs.Engine.Translation

namespace LinProg
namespace Engine

variable {α : Type} [Scalar α] {e e' : Engine α}

/-! ## The kinds of edits -/

/-- An engine without an outcome. -/
structure Fresh (e : Engine α) : Prop where
  status : e.status = .notRun
  solution : e.solution = none
  iterations : e.iterations = 0

/-- An engine with the outcome of another, and with all that the outcome was computed from. -/
structure Keeps (e e' : Engine α) : Prop where
  model : e'.model.unnamed = e.model.unnamed
  config : e'.config = e.config
  status : e'.status = e.status
  solution : e'.solution = e.solution
  iterations : e'.iterations = e.iterations

/-- Whether an accepted edit writes anything that a solve computes from. -/
def Edit.writes (e : Engine α) : Edit α → Bool
  | setRowName .. | setColumnName .. | setTitle .. | setRowMode .. => false
  | setAbort .. | clearAbort | solve .. => false
  | setSense sense => decide (e.model.sense ≠ sense)
  | setRightHandSides values => !values.isEmpty
  | setRightHandSidesText text => (Text.numbers? (α := α) text).any fun values => !values.isEmpty
  | _ => true

omit [Scalar α] in
theorem fresh_withModel (e : Engine α) (m : Model α) : (e.withModel m).Fresh := ⟨rfl, rfl, rfl⟩

omit [Scalar α] in
theorem Keeps.refl (e : Engine α) : e.Keeps e := ⟨rfl, rfl, rfl, rfl, rfl⟩

/-- What an accepted edit does to the outcome. -/
inductive Effect (e : Engine α) (edit : Edit α) (e' : Engine α) : Prop
  | fresh : edit.writes e = true → e'.Fresh → Effect e edit e'
  | keeps : edit.writes e = false → e.Keeps e' → (∀ clock, edit ≠ .solve clock) → Effect e edit e'
  | solve (clock : Clock) : edit = .solve clock → e' = e.solve clock → Effect e edit e'

theorem effect_editRow? {edit : Edit α} {row : ℕ} {f : Row α → Row α}
    (hwrites : edit.writes e = true) (h : e.editRow? row f = some e') : Effect e edit e' := by
  obtain ⟨i, -, -, rfl⟩ := of_editRow? h
  exact .fresh hwrites (fresh_withModel e _)

theorem effect_setRightHandSides? {values : List α} (h : e.setRightHandSides? values = some e') :
    Effect e (.setRightHandSides values) e' := by
  rcases of_setRightHandSides? h with ⟨rfl, rfl⟩ | ⟨hne, rows, -, rfl⟩
  · exact .keeps rfl (Keeps.refl e') (by rintro clock ⟨⟩)
  · refine .fresh ?_ (fresh_withModel e _)
    rw [Edit.writes, List.isEmpty_eq_false_iff.mpr hne, Bool.not_false]

theorem Edit.ComesTo.writes_eq {edit d : Edit α} (h : edit.ComesTo e d) :
    edit.writes e = d.writes e := by
  induction h with
  | text hspells hvalues _ ih =>
      refine Eq.trans ?_ ih
      cases hspells with
      | setRightHandSides => exact congrArg (Option.any _) hvalues
      | _ => rfl
  | _ => rfl

theorem Edit.ComesTo.eq_solve_iff {edit d : Edit α} (h : edit.ComesTo e d) (clock : Clock) :
    edit = .solve clock ↔ d = .solve clock := by
  induction h with
  | direct _ => exact Iff.rfl
  | text hspells _ _ ih =>
      refine Iff.trans ?_ ih
      cases hspells <;> exact ⟨nofun, nofun⟩
  | _ => exact ⟨nofun, nofun⟩

theorem Edit.ComesTo.effect {edit d : Edit α} (h : edit.ComesTo e d) (heffect : Effect e d e') :
    Effect e edit e' := by
  cases heffect with
  | fresh hwrites hfresh => exact .fresh (h.writes_eq.trans hwrites) hfresh
  | keeps hwrites hkeeps hsolve =>
      exact .keeps (h.writes_eq.trans hwrites) hkeeps
        fun clock hedit => hsolve clock ((h.eq_solve_iff clock).mp hedit)
  | solve clock hd he => exact .solve clock ((h.eq_solve_iff clock).mpr hd) he

theorem effect_result? (he : e.model.Canonical) {edit : Edit α} (h : edit.result? e = some e') :
    Effect e edit e' := by
  obtain ⟨d, hcomes, hdirect, h⟩ := Edit.exists_direct h
  refine hcomes.effect ?_
  cases hsheet : d.onSheet? e with
  | some f =>
      have hwrites : d.writes e = true := by
        cases hdirect <;> first | rfl | cases hsheet
      obtain ⟨m, rfl⟩ := (edited_result? he hsheet h).model
      exact .fresh hwrites (fresh_withModel e m)
  | none =>
      cases hdirect with
      | setRightHandSide row x => exact effect_editRow? rfl h
      | setRightHandSides values => exact effect_setRightHandSides? h
      | setRelation row relation => exact effect_editRow? rfl h
      | setRange row width => exact effect_editRow? rfl h
      | setBounds column lower upper =>
          obtain ⟨-, j, -, -, rfl⟩ := of_setBounds? h
          exact .fresh rfl (fresh_withModel e _)
      | setRowName row name =>
          obtain ⟨i, -, -, rfl⟩ := of_setRowName? h
          refine .keeps rfl ⟨?_, rfl, rfl, rfl, rfl⟩ (by rintro clock ⟨⟩)
          exact Model.unnamed_modifyRow (by intro r; rfl) e.model i
      | setColumnName column name =>
          obtain ⟨j, -, -, rfl⟩ := of_setColumnName? h
          refine .keeps rfl ⟨?_, rfl, rfl, rfl, rfl⟩ (by rintro clock ⟨⟩)
          exact Model.unnamed_modifyColumn (by intro c; rfl) e.model j
      | setTitle name =>
          cases h
          exact .keeps rfl ⟨rfl, rfl, rfl, rfl, rfl⟩ (by rintro clock ⟨⟩)
      | setRowMode enabled =>
          obtain ⟨-, rfl⟩ := of_setRowMode? h
          exact .keeps rfl ⟨rfl, rfl, rfl, rfl, rfl⟩ (by rintro clock ⟨⟩)
      | setSense sense =>
          obtain rfl : e.setSense sense = e' := Option.some.inj h
          by_cases hsense : e.model.sense = sense
          · rw [setSense, if_pos hsense]
            exact .keeps (decide_eq_false fun h => h hsense) (Keeps.refl e) (by rintro clock ⟨⟩)
          · rw [setSense, if_neg hsense]
            exact .fresh (decide_eq_true hsense) (fresh_withModel e _)
      | setInfinity infinity =>
          cases h
          exact .fresh rfl ⟨rfl, rfl, rfl⟩
      | setConfig config =>
          cases h
          exact .fresh rfl ⟨rfl, rfl, rfl⟩
      | setAbort answer =>
          cases h
          exact .keeps rfl ⟨rfl, rfl, rfl, rfl, rfl⟩ (by rintro clock ⟨⟩)
      | clearAbort =>
          cases h
          exact .keeps rfl ⟨rfl, rfl, rfl, rfl, rfl⟩ (by rintro clock ⟨⟩)
      | solve clock => exact .solve clock rfl (Option.some.inj h).symm
      | _ => cases hsheet

/-! ## The invariant -/

/-- What an engine stores as its outcome fits its model. -/
structure Consistent (e : Engine α) : Prop where
  /-- There is no solution, or there is one of the model as it stands and the status says why. -/
  solution : (e.solution = none ∧ e.objective? = none) ∨
    ∃ s, e.solution = some s ∧ s.BelongsTo e.model ∧ e.objective? = s.primal[0]? ∧
      (e.status = .optimal ∨ e.status = .subOptimal ∨ e.status = .userAbort)
  notRun : e.status = .notRun → e.solution = none ∧ e.iterations = 0
  /-- No solve of a model that has no standard form has made a pivot. -/
  unsolvable : ∀ o, e.model.standardForm e.config.infinity = .error o → e.iterations = 0

theorem Fresh.consistent (h : e.Fresh) : e.Consistent where
  solution := by
    refine Or.inl ⟨h.solution, ?_⟩
    rw [objective?, h.solution]
    rfl
  notRun _ := ⟨h.solution, h.iterations⟩
  unsolvable _ _ := h.iterations

theorem Keeps.consistent (h : e.Keeps e') (he : e.Consistent) : e'.Consistent where
  solution := by
    have hobjective : e'.objective? = e.objective? := by rw [objective?, h.solution, objective?]
    rw [h.solution, h.status, hobjective]
    refine he.solution.imp_right ?_
    rintro ⟨s, hs, hbelongs, hrest⟩
    exact ⟨s, hs, hbelongs.congr (.of_unnamed h.model), hrest⟩
  notRun := by
    rw [h.status, h.solution, h.iterations]
    exact he.notRun
  unsolvable o := by
    rw [h.config, h.iterations, Model.standardForm_eq_of_unnamed h.model]
    exact he.unsolvable o

omit [Scalar α] in
theorem status_of_solution? {v : Verdict α} {b : BasicSolution α} (h : v.solution? = some b) :
    v.status = .optimal ∨ v.status = .subOptimal ∨ v.status = .userAbort := by
  cases v with
  | optimum s => exact Or.inl rfl
  | interrupted why s =>
      obtain rfl : s = some b := h
      cases why with
      | timeLimit => exact Or.inr (Or.inl rfl)
      | aborted => exact Or.inr (Or.inr rfl)
  | infeasible => cases h
  | unbounded => cases h
  | numericFailure => cases h
  | cycled => cases h

omit [Scalar α] in
theorem status_ne_notRun (v : Verdict α) : v.status ≠ .notRun := by
  cases v with
  | interrupted why s =>
      cases why with
      | timeLimit => cases s <;> nofun
      | aborted => nofun
  | _ => nofun

/-- The pivots that a solve makes; none where there is no standard form. -/
def solvePivots (clock : Clock) (e : Engine α) : ℕ :=
  match e.model.standardForm e.config.infinity with
  | .error _ => 0
  | .ok f => (f.pivots e.tolerances (e.control clock)).length

theorem consistent_solve (hm : e.model.Sorted) (he : e.Consistent) (clock : Clock) :
    (e.solve clock).Consistent ∧ (e.solve clock).iterations = e.solvePivots clock := by
  rw [solve, solvePivots]
  cases hform : e.model.standardForm e.config.infinity with
  | error o => exact ⟨⟨Or.inl ⟨rfl, rfl⟩, by rintro ⟨⟩, fun _ _ => he.unsolvable o hform⟩,
      he.unsolvable o hform⟩
  | ok f =>
      refine ⟨⟨?_, fun h => absurd h (status_ne_notRun _), fun o ho => ?_⟩,
        StandardForm.iterations_minimize _ _ f⟩
      · simp only
        cases hb : (f.minimize e.tolerances (e.control clock)).verdict.solution? with
        | none => exact Or.inl ⟨rfl, rfl⟩
        | some b =>
            exact Or.inr ⟨Solution.ofBasic e.model f b, rfl, Solution.belongsTo_ofBasic hm hform b,
              rfl, status_of_solution? hb⟩
      · cases hform.symm.trans ho

/-! ## Every engine -/

/-- The pivots of the latest solve since something was written, where there were `n` of them
before an edit. -/
def Edit.pivots (e : Engine α) (n : ℕ) (edit : Edit α) : ℕ :=
  match edit with
  | .solve clock => e.solvePivots clock
  | _ => if (edit.result? e).isSome && edit.writes e then 0 else n

/-- The pivots of the latest solve since something was written, after edits; there were `n` of
them before. -/
def recentPivots (n : ℕ) (e : Engine α) : List (Edit α) → ℕ
  | [] => n
  | edit :: edits => recentPivots (edit.pivots e n) (e.perform edit).2 edits

theorem Edit.pivots_of_ne {edit : Edit α} (h : ∀ clock, edit ≠ .solve clock) (n : ℕ) :
    edit.pivots e n = if (edit.result? e).isSome && edit.writes e then 0 else n := by
  cases edit with
  | solve clock => exact absurd rfl (h clock)
  | _ => rfl

theorem consistent_perform (hm : e.model.Canonical) (he : e.Consistent) (edit : Edit α) :
    (e.perform edit).2.Consistent ∧
      (e.perform edit).2.iterations = edit.pivots e e.iterations := by
  rw [perform]
  cases hresult : edit.result? e with
  | none =>
      have hsolve : ∀ clock, edit ≠ .solve clock := by
        rintro clock rfl
        cases hresult
      rw [Edit.pivots_of_ne hsolve, hresult]
      exact ⟨he, rfl⟩
  | some e' =>
      cases effect_result? hm hresult with
      | fresh hwrites hfresh =>
          have hsolve : ∀ clock, edit ≠ .solve clock := by
            rintro clock rfl
            cases hwrites
          rw [Edit.pivots_of_ne hsolve, hresult, hwrites]
          exact ⟨hfresh.consistent, hfresh.iterations⟩
      | keeps hwrites hkeeps hsolve =>
          rw [Edit.pivots_of_ne hsolve, hwrites, Bool.and_false]
          exact ⟨hkeeps.consistent he, hkeeps.iterations⟩
      | solve clock hedit hsolve =>
          rw [hedit, hsolve]
          exact consistent_solve hm.listed he clock

theorem consistent_performAll (hm : e.model.Canonical) (he : e.Consistent)
    (edits : List (Edit α)) :
    (e.performAll edits).Consistent ∧
      (e.performAll edits).iterations = recentPivots e.iterations e edits := by
  induction edits generalizing e with
  | nil => exact ⟨he, rfl⟩
  | cons edit edits ih =>
      obtain ⟨hstep, hpivots⟩ := consistent_perform hm he edit
      rw [recentPivots, ← hpivots]
      exact ih (canonical_perform hm edit) hstep

/-- Whatever was tried on a new engine, a solution that it stores is one of its model, and its
iterations are the pivots of the latest solve since something was written; a solve that finds no
standard form leaves none. -/
theorem outcome_belongs (rows columns : ℕ) (config : Config α) (edits : List (Edit α)) :
    let e := (create rows columns config).performAll edits
    e.Consistent ∧ e.iterations = recentPivots 0 (create rows columns config) edits ∧
      ∀ clock o, e.model.standardForm e.config.infinity = .error o →
        (e.solve clock).iterations = 0 := by
  intro e
  have hnew : (create rows columns config).Fresh := ⟨rfl, rfl, rfl⟩
  have hblank := Model.canonical_blank rows columns config.infinity
  obtain ⟨hconsistent, hiterations⟩ := consistent_performAll hblank hnew.consistent edits
  refine ⟨hconsistent, hiterations, ?_⟩
  intro clock o ho
  have hlisted := (canonical_create_performAll rows columns config edits).listed
  rw [(consistent_solve hlisted hconsistent clock).2, solvePivots, ho]

/-- Options for exact scalars, of which those from one hundred on are infinite. -/
def exactConfig : Config ℚ := ⟨0, 0, 100, none, default⟩

/-- The greatest `x ≤ 4` is looked for, and then the limit is named. -/
def limited : List (Edit ℚ) :=
  [.setRowDense 1 [1], .setRightHandSide 1 4, .setObjectiveDense [1], .setSense .maximize,
    .solve fun _ => 0, .setRowName 1 "limit"]

/-- The solve takes one pivot, which the name does not make undone; with an upper limit below all
numbers there is nothing to pivot on. -/
theorem outcome_belongs_limited :
    ((create 1 1 exactConfig).performAll limited).Consistent ∧
      ((create 1 1 exactConfig).performAll limited).solution = some ⟨[4, 4, 4], [1], [0]⟩ ∧
      recentPivots 0 (create 1 1 exactConfig) limited = 1 ∧
      (((create 1 1 exactConfig).performAll (limited ++ [.setRightHandSide 1 (-200)])).solve
        fun _ => 0).iterations = 0 := by
  obtain ⟨hconsistent, hiterations, -⟩ := outcome_belongs 1 1 exactConfig limited
  obtain ⟨-, -, hsolve⟩ := outcome_belongs 1 1 exactConfig (limited ++ [.setRightHandSide 1 (-200)])
  have hone : ((create 1 1 exactConfig).performAll limited).iterations = 1 := by decide +kernel
  refine ⟨hconsistent, by decide +kernel, hiterations.symm.trans hone, ?_⟩
  refine hsolve (fun _ => 0) (.unmeetable 0) ?_
  decide +kernel

end Engine
end LinProg
