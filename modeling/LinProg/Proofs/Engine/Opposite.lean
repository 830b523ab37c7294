/-
Maximising a cost is minimising its negative.

The opposite of a model has the other sense and the negated costs.  Both have
one standard form: the sign of the sense is multiplied into every cost that is
written there, and the two changes cancel.  So both run alike, whatever the
tolerances and whenever they are stopped, and come to the same basic solution.

On the way back the sign of the sense is multiplied into the prices, which the
reduced costs are computed from; these and the objective also read the costs of
the model as they are.  Each of the three is negated, and nothing else is.
-/
import LinProg.Proofs.Engine.Verdict

namespace LinProg

def Sense.opposite : Sense → Sense
  | .maximize => .minimize
  | .minimize => .maximize

/-- A model with the other sense and the negated costs. -/
def Model.opposite (m : Model ℚ) : Model ℚ :=
  { m with sense := m.sense.opposite, cost := m.cost.map fun e => (e.1, -e.2) }

/-- A solution with the negated objective, prices and reduced costs, and with the same values of
rows and columns. -/
def Solution.opposite (s : Solution ℚ) : Solution ℚ :=
  { primal := s.primal.modifyHead fun z => -z
    duals := s.duals.map fun y => -y
    reducedCosts := s.reducedCosts.map fun d => -d }

/-- An engine for the opposite model, with the same configuration and abort request. -/
def Engine.opposite (e : Engine ℚ) : Engine ℚ := { e with model := e.model.opposite }

@[simp] theorem Sense.sign_opposite (sense : Sense) :
    (sense.opposite.sign : ℚ) = -sense.sign := by
  cases sense with
  | maximize => rfl
  | minimize => exact (neg_neg _).symm

namespace Sparse

variable (v : Sparse ℚ)

theorem get_map_neg (i : ℕ) : Sparse.get i (v.map fun e => (e.1, -e.2)) = -(v.get i) := by
  induction v with
  | nil => exact neg_zero.symm
  | cons e v ih =>
      rw [List.map_cons, get, get]
      split
      · rfl
      · exact ih

theorem toDense_map_neg (n : ℕ) :
    Sparse.toDense n (v.map fun e => (e.1, -e.2)) = (v.toDense n).map fun x => -x := by
  rw [toDense, toDense, List.map_map]
  exact List.map_congr_left fun i _ => get_map_neg v i

theorem dot_map_neg (y : List ℚ) :
    Sparse.dot (v.map fun e => (e.1, -e.2)) y = -(v.dot y) := by
  have hscale := dot_scale (v := v) (-1) y
  simp only [neg_one_mul] at hscale
  exact hscale

end Sparse

namespace Dense

theorem modify_map {α β : Type} {g : α → β} {f : α → α} {f' : β → β}
    (h : ∀ x, f' (g x) = g (f x)) (xs : List α) (i : ℕ) :
    (xs.map g).modify i f' = (xs.modify i f).map g := by
  refine List.ext_getElem? fun j => ?_
  rw [List.getElem?_modify, List.getElem?_map, List.getElem?_map, List.getElem?_modify]
  cases xs[j]? with
  | none => rfl
  | some x =>
      by_cases hij : i = j
      · simp only [hij, if_true, Option.map_some, Option.map_eq_map, h]
      · simp only [hij, if_false, Option.map_some, Option.map_eq_map]

end Dense

namespace Model

variable (m : Model ℚ)

theorem substitutedCost_opposite (subs : List (Substitution ℚ)) (width : ℕ) :
    m.opposite.substitutedCost subs width = m.substitutedCost subs width := by
  rw [substitutedCost, substitutedCost, opposite, List.foldl_map]
  simp only [Sense.sign_opposite, neg_mul, mul_neg, neg_neg]

/-- A model and its opposite have one standard form, or none for the same reason. -/
theorem standardForm_opposite (infinity : ℚ) :
    m.opposite.standardForm infinity = m.standardForm infinity := by
  have hstray : ∀ n : ℕ, (m.opposite.cost.find? fun e => n ≤ e.1)
      = (m.cost.find? fun e => n ≤ e.1).map fun e => (e.1, -e.2) := by
    intro n
    exact List.find?_map
  have hcolumns : m.opposite.columns = m.columns := rfl
  have hrows : m.opposite.rows = m.rows := rfl
  rw [standardForm, standardForm]
  simp only [hcolumns, hrows, hstray, substitutedCost_opposite]
  cases rowsFrom? infinity (substitutionsFrom infinity 0 m.columns) 0 m.rows with
  | error o => rfl
  | ok rows =>
      cases m.cost.find? fun e => (substitutionsFrom infinity 0 m.columns).length ≤ e.1 with
      | none => rfl
      | some e => rfl

end Model

namespace Solution

variable (m : Model ℚ) (f : StandardForm ℚ)

theorem prices_opposite (duals : List ℚ) :
    prices m.opposite f duals = (prices m f duals).map fun y => -y := by
  have hstart : List.replicate m.opposite.nrRows (0 : ℚ)
      = (List.replicate m.nrRows 0).map fun y => -y := by
    rw [List.map_replicate, neg_zero]
    rfl
  rw [prices, prices, hstart]
  refine List.foldl_hom (List.map fun y => -y) ?_
  rintro prices ⟨q, y⟩
  dsimp only
  cases q.origin with
  | bound => rfl
  | constraint row sign =>
      refine Dense.modify_map (fun z => ?_) prices row
      rw [Model.opposite, Sense.sign_opposite]
      ring

theorem reduced_opposite (prices : List ℚ) :
    reduced m.opposite (prices.map fun y => -y) = (reduced m prices).map fun d => -d := by
  have hstart : Sparse.toDense m.opposite.nrColumns m.opposite.cost
      = (m.cost.toDense m.nrColumns).map fun x => -x :=
    Sparse.toDense_map_neg m.cost m.nrColumns
  rw [reduced, reduced, List.zip_map_right, List.foldl_map, hstart]
  refine List.foldl_hom (List.map fun d => -d) ?_
  rintro d ⟨r, y⟩
  refine List.foldl_hom (List.map fun d => -d) ?_
  rintro d ⟨j, x⟩
  refine Dense.modify_map (fun z => ?_) d j
  dsimp only [Prod.map]
  ring

/-- A basic solution means for the opposite model the opposite of what it means for the model. -/
theorem ofBasic_opposite (b : BasicSolution ℚ) :
    ofBasic m.opposite f b = (ofBasic m f b).opposite := by
  rw [ofBasic, ofBasic, opposite]
  simp only [prices_opposite, reduced_opposite, List.modifyHead_cons]
  rw [Model.opposite, Sparse.dot_map_neg]

theorem head?_opposite (s : Solution ℚ) :
    s.opposite.primal.head? = s.primal.head?.map fun z => -z := by
  rw [opposite]
  cases s.primal with
  | nil => rfl
  | cons z values => rfl

end Solution

namespace Engine

variable (e : Engine ℚ) (clock : Clock)

/-- Both engines run on one standard form, with the same tolerances and the same answers to the
questions whether to stop. -/
theorem outcome_opposite :
    (e.opposite.solve clock).status = (e.solve clock).status ∧
      (e.opposite.solve clock).iterations = (e.solve clock).iterations ∧
      (e.opposite.solve clock).solution = (e.solve clock).solution.map Solution.opposite := by
  have hform : e.opposite.model.standardForm e.opposite.config.infinity
      = e.model.standardForm e.config.infinity :=
    e.model.standardForm_opposite e.config.infinity
  rw [solve, solve, hform]
  cases e.model.standardForm e.config.infinity with
  | error o => exact ⟨rfl, rfl, rfl⟩
  | ok f =>
      refine ⟨rfl, rfl, ?_⟩
      have hbasic : Solution.ofBasic e.opposite.model f
          = Solution.opposite ∘ Solution.ofBasic e.model f :=
        funext fun b => Solution.ofBasic_opposite e.model f b
      simp only [hbasic, Option.map_map]
      rfl

/-- Maximising a cost is minimising its negative: an engine for the opposite model answers with the
same status after as many pivots, its solution is the opposite one, and so is its objective. -/
theorem solve_opposite :
    (e.opposite.solve clock).status = (e.solve clock).status ∧
      (e.opposite.solve clock).iterations = (e.solve clock).iterations ∧
      (e.opposite.solve clock).solution = (e.solve clock).solution.map Solution.opposite ∧
      (e.opposite.solve clock).objective? = (e.solve clock).objective?.map fun z => -z := by
  obtain ⟨hstatus, hiterations, hsolution⟩ := outcome_opposite e clock
  refine ⟨hstatus, hiterations, hsolution, ?_⟩
  rw [objective?, objective?, hsolution]
  cases (e.solve clock).solution with
  | none => rfl
  | some s => exact s.head?_opposite

end Engine
end LinProg
