/-
A symbolic expression becomes the row that it denotes.

Laying an expression out copies its terms, repeated columns and all, in front
of whatever an earlier expression has left behind.  Only when the engine reads
this listing are the terms of a column added up.  What is stored then is the
linear form that the expression stands for; and a column is refused for being
mentioned, no matter with which coefficients.
-/
import LinProg.Proofs.Formula
import LinProg.Proofs.Engine.Accepted
import LinProg.Solver.Basic

namespace LinProg

/-! ## Terms laid out -/

namespace Listing

def ofTerms {α : Type} (ts : List (Term α)) : Listing α :=
  ⟨ts.length, ts.map Term.coefficient, ts.map Term.column⟩

variable {α : Type} {ts : List (Term α)} {first last : ℕ}

theorem take_map_length {β : Type} (f : Term α → β) :
    (ts.map f).take ts.length = ts.map f :=
  List.take_of_length_le (List.length_map f).le

theorem valid_ofTerms :
    (ofTerms ts).Valid first last ↔ ∀ i ∈ ts.map Term.column, first ≤ i ∧ i ≤ last := by
  simp only [Valid, ofTerms, take_map_length, List.length_map, le_refl, true_and]

theorem entries_ofTerms (shift : ℕ) :
    (ofTerms ts).entries shift = ts.map fun t => (t.column - shift, t.coefficient) := by
  rw [entries, ofTerms, take_map_length, take_map_length, List.map_map]
  exact List.zip_map'

end Listing

namespace Workspace

variable {α : Type} [Scalar α] {w : Workspace α} {e : Expr α}

theorem layOut_of_zero (h : 0 ∈ e.terms.map Term.column) :
    w.layOut e = .error .invalidColumn := by
  obtain ⟨t, ht, hcolumn⟩ := List.mem_map.mp h
  have hany : (e.terms.any fun t => t.column == 0) = true :=
    List.any_eq_true.mpr ⟨t, ht, beq_iff_eq.mpr hcolumn⟩
  exact if_pos hany

theorem layOut_of_ne (h : 0 ∉ e.terms.map Term.column) :
    w.layOut e = .ok ((w.ensure e.length).overwrite e.terms) := by
  have hany : ¬ (e.terms.any fun t => t.column == 0) = true := by
    intro hany
    obtain ⟨t, ht, hcolumn⟩ := List.any_eq_true.mp hany
    exact h (List.mem_map.mpr ⟨t, ht, beq_iff_eq.mp hcolumn⟩)
  exact if_neg hany

end Workspace

namespace Solver

variable {α : Type} [Scalar α] {s : Solver α} {e : Expr α}

theorem performWith_of_zero (h : 0 ∈ e.terms.map Term.column)
    (edit : Listing α → Engine.Edit α) : s.performWith e edit = (.error .invalidColumn, s) := by
  rw [performWith, Workspace.layOut_of_zero h]

theorem performWith_congr {f : Expr α} (h : e.terms = f.terms) (edit : Listing α → Engine.Edit α) :
    s.performWith e edit = s.performWith f edit := by
  simp only [performWith, Workspace.layOut, Expr.length, h]

/-- Whatever the workspace was used for before, the engine is handed the terms of the expression
and nothing else. -/
theorem performWith_of_ne (h : 0 ∉ e.terms.map Term.column) :
    ∃ workspace, ∀ edit : Listing α → Engine.Edit α,
      s.performWith e edit = { s with workspace }.perform (edit (Listing.ofTerms e.terms)) := by
  refine ⟨(s.workspace.ensure e.length).overwrite e.terms, ?_⟩
  intro edit
  rw [performWith, Workspace.layOut_of_ne h]
  exact congrArg (fun l => Solver.perform _ (edit l))
    (Workspace.listing_overwrite e.terms (s.workspace.ensure e.length))

end Solver

/-! ## The row of a formula -/

namespace Formula

/-- Coefficients, those of the first column at index 0, that are the coefficients of a formula;
their inner product with values of the columns is the value of the formula. -/
structure Denotes (e : Formula) (v : Sparse ℚ) : Prop where
  get : ∀ j, v.get j = e.coefficient (j + 1)
  dot : ∀ x : List ℚ, v.dot x = e.value fun j => x.getD (j - 1) 0

variable {e : Formula} {n : ℕ}

/-- What the engine makes of the terms of a formula. -/
def row (e : Formula) : Sparse ℚ := Sparse.collect ((Listing.ofTerms e.build.terms).entries 1)

theorem row_eq (e : Formula) :
    e.row = Sparse.collect (e.build.terms.map fun t => (t.column - 1, t.coefficient)) := by
  rw [row, Listing.entries_ofTerms]

theorem weight_terms {ts : List (Term ℚ)} (h : ∀ t ∈ ts, t.column ≠ 0) (j : ℕ) :
    Sparse.weight (ts.map fun t => (t.column - 1, t.coefficient)) j
      = termsValue (fun k => if k = j + 1 then 1 else 0) ts := by
  rw [Sparse.weight, termsValue, List.map_map]
  congr 1
  refine List.map_congr_left ?_
  intro t ht
  have hpos := h t ht
  have hplace : t.column - 1 = j ↔ t.column = j + 1 := by omega
  simp only [Function.comp_apply, hplace, mul_ite, mul_one, mul_zero]

theorem dot_terms (x : List ℚ) (ts : List (Term ℚ)) :
    Sparse.dot (ts.map fun t => (t.column - 1, t.coefficient)) x
      = termsValue (fun j => x.getD (j - 1) 0) ts := by
  rw [Sparse.dot, Scalar.sum_eq, termsValue, List.map_map]
  rfl

theorem denotes_row (h : 0 ∉ e.columns) : e.Denotes e.row := by
  have hterms : ∀ t ∈ e.build.terms, t.column ≠ 0 := by
    intro t ht hzero
    refine h ?_
    rw [← columns_build e, ← hzero]
    exact List.mem_map_of_mem ht
  refine ⟨?_, ?_⟩
  · intro j
    rw [row_eq, Sparse.get_collect_eq_weight, weight_terms hterms, termsValue_build, coefficient]
  · intro x
    rw [row_eq, Sparse.dot_collect, dot_terms, termsValue_build]

def Within (n : ℕ) (e : Formula) : Prop := ∀ j ∈ e.columns, 1 ≤ j ∧ j ≤ n

instance (n : ℕ) (e : Formula) : Decidable (e.Within n) :=
  inferInstanceAs (Decidable (∀ j ∈ e.columns, 1 ≤ j ∧ j ≤ n))

theorem readRow?_eq (engine : Engine ℚ) (e : Formula) :
    engine.readRow? (Listing.ofTerms e.build.terms)
      = if e.Within engine.nrColumns then some e.row else none := by
  have hvalid : (Listing.ofTerms e.build.terms).Valid 1 engine.nrColumns
      ↔ e.Within engine.nrColumns := by
    rw [Listing.valid_ofTerms, columns_build]
    rfl
  rw [Engine.readRow?, Listing.read?]
  simp only [hvalid]
  rfl

end Formula

/-! ## The calls that take an expression -/

namespace Solver

/-- A call that hands an expression to a solver. -/
inductive Call where
  | addConstraint (relation : Relation) (rightHandSide : ℚ)
  | setRow (row : ℕ)
  | setObjective

namespace Call

/-- What a solver answers to a call, and the solver after it. -/
def answer (s : Solver ℚ) (e : Expr ℚ) : Call → Solver.Answer × Solver ℚ
  | addConstraint relation b => s.addConstraint (e.relate relation b)
  | setRow row => s.setRow row e
  | setObjective => s.setObjective e

/-- The model with coefficients at the place that a call names. -/
def store (v : Sparse ℚ) (m : Model ℚ) : Call → Model ℚ
  | addConstraint relation b => m.pushRow (Row.plain v relation b)
  | setRow row =>
      { m with rows := m.rows.modify (row - 1) fun r => { r with coefficients := v } }
  | setObjective => { m with cost := v }

def Placed (engine : Engine ℚ) : Call → Prop
  | setRow row => 1 ≤ row ∧ row ≤ engine.nrRows
  | _ => True

/-- While rows are being added, those that are there are not replaced. -/
def Open (engine : Engine ℚ) : Call → Prop
  | setRow _ => engine.rowMode = false
  | _ => True

instance (engine : Engine ℚ) : (call : Call) → Decidable (call.Open engine)
  | setRow _ => inferInstanceAs (Decidable (engine.rowMode = false))
  | addConstraint .. => isTrue trivial
  | setObjective => isTrue trivial

/-- The edit that a call makes of a listing. -/
def edit (l : Listing ℚ) : Call → Engine.Edit ℚ
  | addConstraint relation b => .appendConstraint l relation b
  | setRow row => .setRow row l
  | setObjective => .setObjective l

variable {call : Call} {engine : Engine ℚ} {s : Solver ℚ}

theorem answer_eq (hplaced : call.Placed s.engine) (e : Expr ℚ) :
    call.answer s e = s.performWith e fun l => call.edit l := by
  cases call with
  | addConstraint relation b =>
      show s.performWith e.settle (fun l => .appendConstraint l relation b) = _
      rw [performWith_congr (Expr.terms_settle e)]
      rfl
  | setRow row =>
      have hcheck : s.checkRow row = .ok () := if_pos hplaced
      rw [answer, Solver.setRow, hcheck]
      rfl
  | setObjective => rfl

/-- The engine takes the terms of a formula, where the call is open to it, if all columns are
there. -/
theorem result?_edit (hplaced : call.Placed engine) (e : Formula) :
    (call.edit (Listing.ofTerms e.build.terms)).result? engine
      = if call.Open engine ∧ e.Within engine.nrColumns then
          some (engine.withModel (call.store e.row engine.model))
        else none := by
  cases call with
  | addConstraint relation b =>
      rw [edit, Engine.Edit.result?, Engine.appendConstraint?, Formula.readRow?_eq]
      simp only [Open, true_and]
      split
      · rfl
      · rfl
  | setObjective =>
      rw [edit, Engine.Edit.result?, Engine.setObjective?, Formula.readRow?_eq]
      simp only [Open, true_and]
      split
      · rfl
      · rfl
  | setRow row =>
      obtain ⟨i, rfl⟩ : ∃ i, row = i + 1 := ⟨row - 1, by have := hplaced.1; omega⟩
      have hi : i < engine.nrRows := hplaced.2
      have hindex : engine.rowIndex? (i + 1) = some i := Engine.rowIndex?_eq_some.mpr ⟨rfl, hi⟩
      have hmodify : ∀ f, engine.model.modifyRow? i f
          = some { engine.model with rows := engine.model.rows.modify i f } := fun f => if_pos hi
      rw [edit, Engine.Edit.result?, Engine.setRow?, hindex, Formula.readRow?_eq]
      cases hmode : engine.rowMode with
      | true => simp [Open, hmode]
      | false =>
          by_cases hwithin : e.Within engine.nrColumns
          · rw [if_pos hwithin, if_pos ⟨hmode, hwithin⟩]
            show (engine.model.modifyRow? i _).bind _ = _
            rw [hmodify]
            rfl
          · rw [if_neg hwithin, if_neg fun h => hwithin h.2]
            rfl

end Call

end Solver

/-! ## The answers of a solver -/

/-- An expression whose columns are there is stored as the row that it denotes, by each call that
is open to it; one that mentions column 0 is an error, and one that mentions a column past the
last is refused. -/
theorem Formula.becomes_row (s : Solver ℚ) (e : Formula) :
    (e.Within s.engine.nrColumns → ∃ v, e.Denotes v ∧
      ∀ call : Solver.Call, call.Placed s.engine → call.Open s.engine →
        (call.answer s e.build).1 = .ok true ∧
        (call.answer s e.build).2.engine = s.engine.withModel (call.store v s.engine.model)) ∧
    (0 ∈ e.columns → ∀ call : Solver.Call, call.Placed s.engine →
      call.answer s e.build = (.error .invalidColumn, s)) ∧
    (0 ∉ e.columns → (∃ j ∈ e.columns, s.engine.nrColumns < j) →
      ∀ call : Solver.Call, call.Placed s.engine →
        (call.answer s e.build).1 = .ok false ∧
        (call.answer s e.build).2.engine = s.engine) := by
  have hanswer : 0 ∉ e.columns → ∃ workspace, ∀ call : Solver.Call, call.Placed s.engine →
      call.answer s e.build
        = { s with workspace }.perform (call.edit (Listing.ofTerms e.build.terms)) := by
    intro hzero
    rw [← Formula.columns_build] at hzero
    obtain ⟨workspace, hperform⟩ := Solver.performWith_of_ne (s := s) hzero
    exact ⟨workspace, fun call hplaced =>
      (Solver.Call.answer_eq hplaced _).trans (hperform fun l => call.edit l)⟩
  refine ⟨?_, ?_, ?_⟩
  · intro hwithin
    have hzero : 0 ∉ e.columns := fun h => absurd (hwithin 0 h).1 (by omega)
    obtain ⟨workspace, hperform⟩ := hanswer hzero
    refine ⟨e.row, Formula.denotes_row hzero, ?_⟩
    intro call hplaced hopen
    have hresult := (Solver.Call.result?_edit hplaced e).trans (if_pos ⟨hopen, hwithin⟩)
    simp only [hperform call hplaced, Solver.perform, Engine.perform, hresult, and_self]
  · intro hzero call hplaced
    rw [Solver.Call.answer_eq hplaced]
    exact Solver.performWith_of_zero (Formula.columns_build e ▸ hzero) _
  · rintro hzero ⟨j, hj, hlast⟩ call hplaced
    obtain ⟨workspace, hperform⟩ := hanswer hzero
    have hout : ¬ (call.Open s.engine ∧ e.Within s.engine.nrColumns) :=
      fun h => (h.2 j hj).2.not_gt hlast
    have hresult := (Solver.Call.result?_edit hplaced e).trans (if_neg hout)
    simp only [hperform call hplaced, Solver.perform, Engine.perform, hresult, and_self]

/-- `-(3 * (x₁ - 2 * x₂) - x₁ + x₂ + x₂)` is the row `-2 * x₁ + 4 * x₂`.  There is no column 0, not
even in `x₀ - x₀`, and with two columns no third one, not even in `0 * x₃`. -/
theorem Formula.becomes_row_mixed :
    let s := Solver.create 1 2 Config.standard
    let e := neg (push (push (subAssign (scale 3 (sub (var 1) (scale 2 (var 2)))) (var 1))
      ⟨2, 1⟩) ⟨2, 1⟩)
    let call := Solver.Call.addConstraint .less 4
    (e.Within s.engine.nrColumns ∧
      (∃ v, e.Denotes v ∧ (call.answer s e.build).1 = .ok true ∧
        (call.answer s e.build).2.engine
          = s.engine.withModel (s.engine.model.pushRow (Row.plain v .less 4))) ∧
      (call.answer s e.build).2.engine.model.rows
        = [Row.empty, Row.plain [(0, -2), (1, 4)] .less 4]) ∧
    (Solver.Call.setRow 1).answer s (sub (var 0) (var 0)).build = (.error .invalidColumn, s) ∧
    (Solver.Call.setObjective.answer s (scale 0 (var 3)).build).1 = .ok false := by
  intro s e call
  have hwithin : e.Within s.engine.nrColumns := by decide
  obtain ⟨v, hv, hcalls⟩ := (becomes_row s e).1 hwithin
  have hzero := (becomes_row s (sub (var 0) (var 0))).2.1 (by decide) (.setRow 1)
    ⟨Nat.le_refl 1, Nat.le_refl 1⟩
  have hpast := (becomes_row s (scale 0 (var 3))).2.2 (by decide) ⟨3, by decide, by decide⟩
    .setObjective trivial
  refine ⟨⟨hwithin, ⟨v, hv, hcalls call trivial trivial⟩, ?_⟩, hzero, hpast.1⟩
  decide +kernel

end LinProg
