/-
The tableaux that solving a standard form can come to.

A run is a walk: it opens on the artificial cost, descends, takes artificial
columns out of the basis row by row, and descends again on the cost of the
standard form.  `Visits` has one constructor for each thing that can happen on
the way and keeps the pivots that were made, each with the tableau that it was
made on.  It knows neither the control that may stop a run nor the bound on
the moves, so what is proved by induction over it holds of all runs at once,
for any scalars.

That a run goes no other way is `covers`: its trails consist of visited
tableaux, and the pivots made before each of them are the first pivots of the
run.
-/
import LinProg.Proofs.Simplex.Trail

namespace LinProg

/-- A pivot that is made: the tableau before, the column that enters, and the row. -/
structure Call (α : Type) where
  tableau : Tableau α
  column : ℕ
  row : ℕ

namespace Call

variable {α : Type} [Scalar α]

def entry (call : Call α) : α := call.tableau.row call.row call.column

def place (call : Call α) : ℕ × ℕ := (call.column, call.row)

end Call

/-- How far a run has come. -/
inductive Stage where
  /-- At its first tableau, which has no cost yet. -/
  | start
  | first
  /-- Where artificial columns are taken out of the basis, with the rows still to be looked at. -/
  | removal (rows : List ℕ)
  | second

def Stage.Descends (stage : Stage) : Prop := stage = .first ∨ stage = .second

namespace StandardForm

variable {α : Type} [Scalar α]

/-- Solving a standard form can come to a tableau, after the given pivots. -/
inductive Visits (tolerances : Tolerances α) (f : StandardForm α) :
    Stage → List (Call α) → Tableau α → Prop
  | start : Visits tolerances f .start [] (Tableau.start f tolerances.pivot)
  /-- The first phase writes the artificial cost, if there are artificial columns. -/
  | opens {calls : List (Call α)} {t : Tableau α} :
      Visits tolerances f .start calls t → t.enterable ≠ t.firstArtificial →
      Visits tolerances f .first calls t.setArtificialCost
  /-- A descent pivots on its next move. -/
  | moves {stage : Stage} {calls : List (Call α)} {t : Tableau α} {c r : ℕ} :
      Visits tolerances f stage calls t → stage.Descends → t.move = .pivot c r →
      Visits tolerances f stage (calls ++ [⟨t, c, r⟩]) (t.pivot c r)
  /-- A descent that has brought the artificial cost down far enough is settled. -/
  | settles {calls : List (Call α)} {t : Tableau α} :
      Visits tolerances f .first calls t → t.move = .finished → t.isSound = true →
      t.objective ≤ tolerances.feasibility →
      Visits tolerances f (.removal (List.range t.nrRows)) calls t
  /-- A row with an artificial column keeps it only if nothing can replace it. -/
  | keeps {row : ℕ} {rows : List ℕ} {calls : List (Call α)} {t : Tableau α} :
      Visits tolerances f (.removal (row :: rows)) calls t →
      (row < t.nrRows → t.firstArtificial ≤ t.basis row → t.replacement? (t.line row) = none) →
      Visits tolerances f (.removal rows) calls t
  /-- Otherwise it is replaced. -/
  | replaces {row : ℕ} {rows : List ℕ} {calls : List (Call α)} {t : Tableau α} {c : ℕ} :
      Visits tolerances f (.removal (row :: rows)) calls t → row < t.nrRows →
      t.firstArtificial ≤ t.basis row → t.replacement? (t.line row) = some c →
      Visits tolerances f (.removal rows) (calls ++ [⟨t, c, row⟩]) (t.pivot c row)
  /-- Once all rows were looked at the second phase writes the cost of the standard form. -/
  | closes {calls : List (Call α)} {t : Tableau α} :
      Visits tolerances f (.removal []) calls t →
      Visits tolerances f .second calls (t.closeArtificial.setCost f.cost)
  /-- Without artificial columns it does so at once. -/
  | skips {calls : List (Call α)} {t : Tableau α} :
      Visits tolerances f .start calls t → t.enterable = t.firstArtificial →
      Visits tolerances f .second calls (t.closeArtificial.setCost f.cost)

end StandardForm

/-- Nothing happens before the cost is written. -/
theorem StandardForm.Visits.eq_start {α : Type} [Scalar α] {f : StandardForm α}
    {tolerances : Tolerances α} {calls : List (Call α)} {t : Tableau α}
    (h : f.Visits tolerances .start calls t) : t = Tableau.start f tolerances.pivot := by
  cases h with
  | start => rfl
  | moves _ hstage _ => exact hstage.elim nofun nofun

/-! ## Trails of visited tableaux -/

namespace Tableau

variable {α : Type} [Scalar α] {t t' : Tableau α} {ps : List (ℕ × ℕ)}

/-- The tableaux of a trail are those after the first of its pivots. -/
theorem exists_prefix_of_mem_trail (h : t' ∈ trail ps t) : ∃ qs, qs <+: ps ∧ t' = t.replay qs := by
  induction ps generalizing t with
  | nil => exact ⟨[], List.prefix_rfl, List.mem_singleton.mp h⟩
  | cons p ps ih =>
      rcases List.mem_cons.mp h with rfl | h
      · exact ⟨[], List.nil_prefix, rfl⟩
      · obtain ⟨qs, hqs, rfl⟩ := ih h
        exact ⟨p :: qs, List.cons_prefix_cons.mpr ⟨rfl, hqs⟩, rfl⟩

end Tableau

namespace StandardForm

variable {α : Type} [Scalar α] {tolerances : Tolerances α} {f : StandardForm α} {stage : Stage}
  {calls : List (Call α)} {t : Tableau α} {control : Control}

/-- A descent goes by moves. -/
theorem Visits.descent (h : f.Visits tolerances stage calls t) (hstage : stage.Descends)
    {fuel asked : ℕ} {qs : List (ℕ × ℕ)}
    (hqs : qs <+: Tableau.descentPivots control fuel asked t) :
    ∃ more, more.map Call.place = qs ∧ f.Visits tolerances stage (calls ++ more) (t.replay qs) := by
  have hnil : ∃ more, more.map Call.place = [] ∧
      f.Visits tolerances stage (calls ++ more) (t.replay []) :=
    ⟨[], rfl, (List.append_nil calls).symm ▸ h⟩
  induction fuel generalizing asked calls t qs with
  | zero =>
      obtain rfl := List.prefix_nil.mp hqs
      exact hnil
  | succ fuel ih =>
      rw [Tableau.descentPivots] at hqs
      split at hqs
      · obtain rfl := List.prefix_nil.mp hqs
        exact hnil
      · split at hqs
        · rename_i c r hmove
          rcases List.prefix_cons_iff.mp hqs with rfl | ⟨qs', rfl, hqs'⟩
          · exact hnil
          · have hnext := h.moves hstage hmove
            obtain ⟨more, hplaces, hvisits⟩ := ih hnext hqs'
              ⟨[], rfl, (List.append_nil _).symm ▸ hnext⟩
            refine ⟨⟨t, c, r⟩ :: more, by rw [List.map_cons, hplaces]; rfl, ?_⟩
            rw [List.append_cons]
            exact hvisits
        · obtain rfl := List.prefix_nil.mp hqs
          exact hnil

/-- The removal of artificial columns goes row by row; where it has made all its pivots it can come
to the end of the rows. -/
theorem Visits.removal {rows : List ℕ} (h : f.Visits tolerances (.removal rows) calls t)
    {ps qs : List (ℕ × ℕ)} (hps : Tableau.expelPivots rows t = ps) (hqs : qs <+: ps) :
    ∃ left more, more.map Call.place = qs ∧ (qs = ps → left = []) ∧
      f.Visits tolerances (.removal left) (calls ++ more) (t.replay qs) := by
  induction rows generalizing calls t ps qs with
  | nil =>
      obtain rfl : [] = ps := hps
      obtain rfl := List.prefix_nil.mp hqs
      exact ⟨[], [], rfl, fun _ => rfl, (List.append_nil calls).symm ▸ h⟩
  | cons row rows ih =>
      rw [Tableau.expelPivots] at hps
      split at hps
      · rename_i hnone
        have hge : t.nrRows ≤ row := List.getElem?_eq_none_iff.mp hnone
        exact ih (h.keeps fun hlt => absurd hlt (not_lt.mpr hge)) hps hqs
      · rename_i l hl
        obtain ⟨hrow, rfl⟩ := List.getElem?_eq_some_iff.mp hl
        rw [← Tableau.line_eq_getElem hrow] at hps
        split at hps
        · rename_i hlt
          exact ih (h.keeps fun _ hge => absurd hlt (not_lt.mpr hge)) hps hqs
        · rename_i hge
          split at hps
          · rename_i c hc
            obtain rfl := hps
            rcases List.prefix_cons_iff.mp hqs with rfl | ⟨qs', rfl, hqs'⟩
            · exact ⟨row :: rows, [], rfl, fun heq => absurd heq (List.cons_ne_nil _ _).symm,
                (List.append_nil calls).symm ▸ h⟩
            · obtain ⟨left, more, hplaces, hleft, hvisits⟩ :=
                ih (h.replaces hrow (not_lt.mp hge) hc) rfl hqs'
              refine ⟨left, ⟨t, c, row⟩ :: more, by rw [List.map_cons, hplaces]; rfl,
                fun heq => hleft (List.cons_inj_right _ |>.mp heq), ?_⟩
              rw [List.append_cons]
              exact hvisits
          · rename_i hnone
            exact ih (h.keeps fun _ _ => hnone) hps hqs

theorem move_of_finished {fuel asked : ℕ} {log : List (ℕ × α)}
    (h : (Tableau.descend control fuel asked log t).halt = .finished) :
    (Tableau.descend control fuel asked log t).tableau.move = .finished := by
  induction fuel generalizing asked log t with
  | zero => cases h
  | succ fuel ih =>
      rw [Tableau.descend] at h ⊢
      cases hasked : control asked with
      | some why => simp [hasked] at h
      | none =>
          cases hmove : t.move with
          | finished => simp [hmove]
          | unlimited column => simp [hasked, hmove] at h
          | pivot column row =>
              simp only [hasked, hmove] at h ⊢
              exact ih h

/-! ## The trails of a run -/

/-- The descent of the first phase is left alone where there are no artificial columns; otherwise
it settles the run, or it is followed by the removal of artificial columns. -/
theorem firstPhase_ways (tolerances : Tolerances α) (control : Control) (f : StandardForm α) :
    let t := Tableau.start f tolerances.pivot
    let d := f.opening tolerances control
    let first := t.firstPhase tolerances.feasibility control
    let pivots := t.firstPhasePivots tolerances.feasibility control
    let opened := Tableau.descentPivots control t.moveBound 0 t.setArtificialCost
    let removed := Tableau.expelPivots (List.range d.tableau.nrRows) d.tableau
    (t.enterable = t.firstArtificial ∧ first.result = .ok [] ∧ first.tableau = t ∧ pivots = [] ∧
        f.firstTrail tolerances control = [] ∧ f.removalTrail tolerances control = []) ∨
      t.enterable ≠ t.firstArtificial ∧
        f.firstTrail tolerances control = Tableau.trail opened t.setArtificialCost ∧
        (((∃ verdict, first.result = .error verdict) ∧ first.tableau = d.tableau ∧
            pivots = opened ∧ f.removalTrail tolerances control = []) ∨
          (d.halt = .finished ∧ d.tableau.isSound = true ∧
            d.tableau.objective ≤ tolerances.feasibility ∧
            first.result = .ok d.tableau.expelArtificial.2 ∧
            first.tableau = d.tableau.expelArtificial.1 ∧ pivots = opened ++ removed ∧
            f.removalTrail tolerances control = Tableau.trail removed d.tableau)) := by
  rw [firstTrail, removalTrail, opening]
  generalize Tableau.start f tolerances.pivot = t
  simp only [Tableau.firstPhase, Tableau.firstPhasePivots]
  by_cases hnone : t.enterable = t.firstArtificial
  · exact Or.inl (by simp [hnone])
  · refine Or.inr ⟨hnone, if_neg hnone, ?_⟩
    simp only [if_neg hnone]
    generalize Tableau.descend control t.moveBound 0 [] t.setArtificialCost = d
    cases d.halt with
    | interrupted why => exact Or.inl ⟨⟨_, rfl⟩, rfl, rfl, rfl⟩
    | unlimited => exact Or.inl ⟨⟨_, rfl⟩, rfl, rfl, rfl⟩
    | exhausted => exact Or.inl ⟨⟨_, rfl⟩, rfl, rfl, rfl⟩
    | finished =>
        cases d.tableau.isSound with
        | false => exact Or.inl ⟨⟨_, rfl⟩, rfl, rfl, rfl⟩
        | true =>
            by_cases hle : d.tableau.objective ≤ tolerances.feasibility
            · exact Or.inr (by simp [hle])
            · exact Or.inl (by simp [hle])

section Run

variable (tolerances : Tolerances α) (control : Control) (f : StandardForm α)

theorem visits_opening
    (hne : (Tableau.start f tolerances.pivot).enterable
      ≠ (Tableau.start f tolerances.pivot).firstArtificial) {qs : List (ℕ × ℕ)}
    (hqs : qs <+: Tableau.descentPivots control (Tableau.start f tolerances.pivot).moveBound 0
      (Tableau.start f tolerances.pivot).setArtificialCost) :
    ∃ calls, calls.map Call.place = qs ∧ f.Visits tolerances .first calls
      ((Tableau.start f tolerances.pivot).setArtificialCost.replay qs) :=
  (Visits.start.opens hne).descent (Or.inl rfl) hqs

theorem visits_removal
    (hne : (Tableau.start f tolerances.pivot).enterable
      ≠ (Tableau.start f tolerances.pivot).firstArtificial)
    (hhalt : (f.opening tolerances control).halt = .finished)
    (hsound : (f.opening tolerances control).tableau.isSound = true)
    (hle : (f.opening tolerances control).tableau.objective ≤ tolerances.feasibility)
    {ps qs : List (ℕ × ℕ)}
    (hps : Tableau.expelPivots (List.range (f.opening tolerances control).tableau.nrRows)
      (f.opening tolerances control).tableau = ps) (hqs : qs <+: ps) :
    ∃ left calls, calls.map Call.place
        = Tableau.descentPivots control (Tableau.start f tolerances.pivot).moveBound 0
          (Tableau.start f tolerances.pivot).setArtificialCost ++ qs ∧
      (qs = ps → left = []) ∧ f.Visits tolerances (.removal left) calls
        ((f.opening tolerances control).tableau.replay qs) := by
  obtain ⟨calls, hplaces, hvisits⟩ := visits_opening tolerances control f hne List.prefix_rfl
  rw [← Tableau.tableau_descend _ _ _ []] at hvisits
  have hmove : (f.opening tolerances control).tableau.move = .finished := move_of_finished hhalt
  obtain ⟨left, more, hmore, hleft, hvisits⟩ :=
    (hvisits.settles hmove hsound hle).removal hps hqs
  exact ⟨left, calls ++ more, by rw [List.map_append, hplaces, hmore], hleft, hvisits⟩

/-- The first phase is visited up to its end, with the pivots that it makes, and where it settles
nothing the second phase follows. -/
theorem visits_firstPhase :
    let first := (Tableau.start f tolerances.pivot).firstPhase tolerances.feasibility control
    ∃ calls : List (Call α), calls.map Call.place
        = (Tableau.start f tolerances.pivot).firstPhasePivots tolerances.feasibility control ∧
      (∃ stage, f.Visits tolerances stage calls first.tableau) ∧
      ∀ redundant, first.result = .ok redundant →
        f.Visits tolerances .second calls (first.tableau.closeArtificial.setCost f.cost) := by
  intro first
  have hstart : f.Visits tolerances .start [] (Tableau.start f tolerances.pivot) := .start
  rcases firstPhase_ways tolerances control f with
    ⟨hnone, -, htableau, hpivots, -, -⟩ | ⟨hne, -, herror | hok⟩
  · refine ⟨[], hpivots.symm, ⟨.start, htableau.symm ▸ hstart⟩, fun _ _ => ?_⟩
    rw [htableau]
    exact hstart.skips hnone
  · obtain ⟨⟨verdict, hresult⟩, htableau, hpivots, -⟩ := herror
    obtain ⟨calls, hplaces, hvisits⟩ := visits_opening tolerances control f hne List.prefix_rfl
    rw [← Tableau.tableau_descend _ _ _ []] at hvisits
    exact ⟨calls, hplaces.trans hpivots.symm, ⟨.first, htableau.symm ▸ hvisits⟩,
      fun _ hok => absurd (hresult.symm.trans hok) nofun⟩
  · obtain ⟨hhalt, hsound, hle, hresult, htableau, hpivots, -⟩ := hok
    obtain ⟨left, calls, hplaces, hleft, hvisits⟩ :=
      visits_removal tolerances control f hne hhalt hsound hle rfl List.prefix_rfl
    obtain rfl := hleft rfl
    rw [← Tableau.tableau_expelOn] at hvisits
    refine ⟨calls, hplaces.trans hpivots.symm, ⟨.removal [], htableau.symm ▸ hvisits⟩,
      fun _ _ => ?_⟩
    rw [htableau]
    exact hvisits.closes

/-- The tableaux of a run are visited, and the pivots made before each of them are the first pivots
of the run. -/
structure Covers : Prop where
  first : ∀ t ∈ f.firstTrail tolerances control, ∃ calls : List (Call α),
    calls.map Call.place <+: f.pivots tolerances control ∧ f.Visits tolerances .first calls t
  removal : ∀ t ∈ f.removalTrail tolerances control, ∃ (rows : List ℕ) (calls : List (Call α)),
    calls.map Call.place <+: f.pivots tolerances control ∧
      f.Visits tolerances (.removal rows) calls t
  second : ∀ t ∈ f.secondTrail tolerances control, ∃ calls : List (Call α),
    calls.map Call.place <+: f.pivots tolerances control ∧ f.Visits tolerances .second calls t
  all : ∃ (stage : Stage) (calls : List (Call α)) (t : Tableau α),
    calls.map Call.place = f.pivots tolerances control ∧
      calls.length = (f.minimize tolerances control).iterations ∧
      f.Visits tolerances stage calls t

theorem covers : f.Covers tolerances control where
  first t ht := by
    rcases firstPhase_ways tolerances control f with ⟨-, -, -, -, hempty, -⟩ | ⟨hne, htrail, hend⟩
    · rw [hempty] at ht
      cases ht
    · rw [htrail] at ht
      obtain ⟨qs, hqs, rfl⟩ := Tableau.exists_prefix_of_mem_trail ht
      obtain ⟨calls, rfl, hvisits⟩ := visits_opening tolerances control f hne hqs
      refine ⟨calls, hqs.trans ?_, hvisits⟩
      rw [pivots]
      rcases hend with ⟨-, -, hpivots, -⟩ | ⟨-, -, -, -, -, hpivots, -⟩
      · rw [hpivots]
        exact List.prefix_append _ _
      · rw [hpivots, List.append_assoc]
        exact List.prefix_append _ _
  removal t ht := by
    rcases firstPhase_ways tolerances control f with ⟨-, -, -, -, -, hempty⟩ | ⟨hne, -, hend⟩
    · rw [hempty] at ht
      cases ht
    · rcases hend with ⟨-, -, -, hempty⟩ | ⟨hhalt, hsound, hle, -, -, hpivots, htrail⟩
      · rw [hempty] at ht
        cases ht
      · rw [htrail] at ht
        obtain ⟨qs, hqs, rfl⟩ := Tableau.exists_prefix_of_mem_trail ht
        obtain ⟨left, calls, hplaces, -, hvisits⟩ :=
          visits_removal tolerances control f hne hhalt hsound hle rfl hqs
        refine ⟨left, calls, ?_, hvisits⟩
        rw [hplaces, pivots, hpivots]
        exact ((List.prefix_append_right_inj _).mpr hqs).trans (List.prefix_append _ _)
  second t ht := by
    obtain ⟨calls, hplaces, -, hsecond⟩ := visits_firstPhase tolerances control f
    rw [secondTrail] at ht
    split at ht
    · cases ht
    · rename_i redundant hok
      obtain ⟨qs, hqs, rfl⟩ := Tableau.exists_prefix_of_mem_trail ht
      obtain ⟨more, hmore, hvisits⟩ := (hsecond redundant hok).descent (Or.inr rfl) hqs
      refine ⟨calls ++ more, ?_, hvisits⟩
      simp only [List.map_append, hplaces, hmore, pivots, hok]
      exact (List.prefix_append_right_inj _).mpr hqs
  all := by
    obtain ⟨calls, hplaces, ⟨stage, hvisits⟩, hsecond⟩ := visits_firstPhase tolerances control f
    rw [iterations_minimize, pivots]
    split
    · refine ⟨stage, calls, _, ?_, ?_, hvisits⟩
      · rw [List.append_nil, hplaces]
      · rw [List.append_nil, ← hplaces, List.length_map]
    · rename_i redundant hok
      obtain ⟨more, hmore, hvisits⟩ :=
        (hsecond redundant hok).descent (Or.inr rfl) List.prefix_rfl
      refine ⟨.second, calls ++ more, _, ?_, ?_, hvisits⟩
      · rw [List.map_append, hplaces, hmore]
      · rw [← hplaces, ← hmore, List.length_append, List.length_append, List.length_map,
          List.length_map]

end Run

end StandardForm
end LinProg
