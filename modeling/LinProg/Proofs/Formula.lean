/-
Expressions as they are written.

A formula records how an expression was composed.  Algebra gives it a value
for all values of the variables; composition gives it a list of terms, in
which a column may occur many times and nothing is ever cancelled.  The two
agree: the terms mention the columns that the formula mentions, one for one,
and their sum is the value of the formula.
-/
import LinProg.Proofs.Reading
import LinProg.Expr

namespace LinProg

/-- The ways to write an expression. -/
inductive Formula where
  | var (column : ℕ)
  | term (t : Term ℚ)
  /-- A list of terms, given or collected; the empty one is zero. -/
  | sum (ts : List (Term ℚ))
  | neg (e : Formula)
  | scale (factor : ℚ) (e : Formula)
  | add (e f : Formula)
  | sub (e f : Formula)
  /-- `e += f`, on a sum -/
  | addAssign (e f : Formula)
  /-- `e -= f`, on a sum -/
  | subAssign (e f : Formula)
  /-- `e *= factor`, on a sum -/
  | mulAssign (e : Formula) (factor : ℚ)
  /-- A term pushed onto a sum. -/
  | push (e : Formula) (t : Term ℚ)
  /-- A sum extended by terms. -/
  | extend (e : Formula) (ts : List (Term ℚ))
  | totalVars (columns : List ℕ)
  | total (es : List Formula)

namespace Formula

mutual

/-- The expression that a formula composes. -/
def build : Formula → Expr ℚ
  | var column => .var column
  | term t => .term t
  | sum ts => .sum ts
  | neg e => e.build.neg
  | scale factor e => e.build.scale factor
  | add e f => e.build.add f.build
  | sub e f => e.build.sub f.build
  | addAssign e f => e.build.toSum.add f.build
  | subAssign e f => e.build.toSum.sub f.build
  | mulAssign e factor => e.build.toSum.scale factor
  | push e t => e.build.toSum.add (.term t)
  | extend e ts => e.build.toSum.add (.sum ts)
  | totalVars columns => Expr.total (columns.map .var)
  | total es => Expr.total (buildAll es)

def buildAll : List Formula → List (Expr ℚ)
  | [] => []
  | e :: es => e.build.toSum :: buildAll es

end

def termsValue (x : ℕ → ℚ) (ts : List (Term ℚ)) : ℚ :=
  (ts.map fun t => t.coefficient * x t.column).sum

mutual

def value (x : ℕ → ℚ) : Formula → ℚ
  | var column => x column
  | term t => t.coefficient * x t.column
  | sum ts => termsValue x ts
  | neg e => -e.value x
  | scale factor e => factor * e.value x
  | add e f | addAssign e f => e.value x + f.value x
  | sub e f | subAssign e f => e.value x - f.value x
  | mulAssign e factor => e.value x * factor
  | push e t => e.value x + t.coefficient * x t.column
  | extend e ts => e.value x + termsValue x ts
  | totalVars columns => (columns.map x).sum
  | total es => valueAll x es

def valueAll (x : ℕ → ℚ) : List Formula → ℚ
  | [] => 0
  | e :: es => e.value x + valueAll x es

end

/-- The total coefficient of the variable in a column: the value of the formula, which has no
constant part, where this variable is one and the others are zero. -/
def coefficient (column : ℕ) (e : Formula) : ℚ := e.value fun j => if j = column then 1 else 0

mutual

/-- The columns that a formula mentions, in the order of writing. -/
def columns : Formula → List ℕ
  | var column => [column]
  | term t => [t.column]
  | sum ts => ts.map Term.column
  | neg e | scale _ e | mulAssign e _ => e.columns
  | add e f | sub e f | addAssign e f | subAssign e f => e.columns ++ f.columns
  | push e t => e.columns ++ [t.column]
  | extend e ts => e.columns ++ ts.map Term.column
  | totalVars columns => columns
  | total es => columnsAll es

def columnsAll : List Formula → List ℕ
  | [] => []
  | e :: es => e.columns ++ columnsAll es

end

end Formula

/-! ## The terms of an expression -/

namespace Expr

variable {α : Type} [Scalar α]

theorem terms_neg (e : Expr α) : e.neg.terms = e.terms.map fun t => ⟨t.column, -t.coefficient⟩ := by
  cases e with
  | var column => rfl
  | term t => rfl
  | sum ts => rfl

theorem terms_total (es : List (Expr α)) : (total es).terms = es.flatMap terms := by
  have hfold : ∀ e : Expr α, (es.foldl add e).terms = e.terms ++ es.flatMap terms := by
    induction es with
    | nil => exact fun e => (List.append_nil _).symm
    | cons f es ih =>
        intro e
        rw [List.foldl_cons, ih, terms_add, List.flatMap_cons, List.append_assoc]
  exact hfold (sum [])

theorem terms_scale (factor : ℚ) (e : Expr ℚ) :
    (e.scale factor).terms = e.terms.map fun t => ⟨t.column, t.coefficient * factor⟩ := by
  cases e with
  | var column => exact congrArg (fun a => [Term.mk column a]) (one_mul factor).symm
  | term t => rfl
  | sum ts => rfl

end Expr

/-! ## What the terms add up to -/

namespace Formula

variable {x : ℕ → ℚ} {ts us : List (Term ℚ)}

theorem termsValue_append : termsValue x (ts ++ us) = termsValue x ts + termsValue x us := by
  rw [termsValue, List.map_append, List.sum_append, termsValue, termsValue]

theorem termsValue_singleton (t : Term ℚ) : termsValue x [t] = t.coefficient * x t.column :=
  List.sum_singleton

theorem termsValue_neg :
    termsValue x (ts.map fun t => ⟨t.column, -t.coefficient⟩) = -termsValue x ts := by
  induction ts with
  | nil => exact neg_zero.symm
  | cons t ts ih =>
      simp only [termsValue, List.map_cons, List.sum_cons] at ih ⊢
      rw [ih, neg_mul, neg_add]

theorem termsValue_scale (factor : ℚ) :
    termsValue x (ts.map fun t => ⟨t.column, t.coefficient * factor⟩)
      = termsValue x ts * factor := by
  induction ts with
  | nil => exact (zero_mul factor).symm
  | cons t ts ih =>
      simp only [termsValue, List.map_cons, List.sum_cons] at ih ⊢
      rw [ih, add_mul, mul_right_comm]

theorem terms_totalVars (columns : List ℕ) :
    (Expr.total (columns.map .var) : Expr ℚ).terms = columns.map fun column => ⟨column, 1⟩ := by
  rw [Expr.terms_total, List.flatMap_map, List.map_eq_flatMap]
  rfl

mutual

/-- The terms of a formula sum up to its value. -/
theorem termsValue_build (x : ℕ → ℚ) : (e : Formula) → termsValue x e.build.terms = e.value x
  | var column => by
      rw [build, Expr.terms, termsValue_singleton]
      exact one_mul (x column)
  | term t => termsValue_singleton t
  | sum ts => rfl
  | neg e => by rw [build, Expr.terms_neg, termsValue_neg, termsValue_build x e, value]
  | scale factor e => by
      rw [build, Expr.terms_scale, termsValue_scale, termsValue_build x e, value, mul_comm]
  | add e f => by
      rw [build, Expr.terms_add, termsValue_append, termsValue_build x e, termsValue_build x f,
        value]
  | sub e f => by
      rw [build, Expr.terms_sub, Expr.terms_neg, termsValue_append, termsValue_neg,
        termsValue_build x e, termsValue_build x f, value, sub_eq_add_neg]
  | addAssign e f => by
      rw [build, Expr.terms_add, Expr.terms_toSum, termsValue_append, termsValue_build x e,
        termsValue_build x f, value]
  | subAssign e f => by
      rw [build, Expr.terms_sub, Expr.terms_toSum, Expr.terms_neg, termsValue_append,
        termsValue_neg, termsValue_build x e, termsValue_build x f, value, sub_eq_add_neg]
  | mulAssign e factor => by
      rw [build, Expr.terms_scale, Expr.terms_toSum, termsValue_scale, termsValue_build x e,
        value]
  | push e t => by
      rw [build, Expr.terms_add, Expr.terms_toSum, termsValue_append, termsValue_build x e,
        Expr.terms, termsValue_singleton, value]
  | extend e ts => by
      rw [build, Expr.terms_add, Expr.terms_toSum, termsValue_append, termsValue_build x e,
        Expr.terms, value]
  | totalVars columns => by
      rw [build, terms_totalVars, termsValue, List.map_map, value]
      congr 1
      exact List.map_congr_left fun column _ => one_mul (x column)
  | total es => by rw [build, Expr.terms_total, termsValue_buildAll x es, value]

theorem termsValue_buildAll (x : ℕ → ℚ) :
    (es : List Formula) → termsValue x ((buildAll es).flatMap Expr.terms) = valueAll x es
  | [] => rfl
  | e :: es => by
      rw [buildAll, List.flatMap_cons, Expr.terms_toSum, termsValue_append, termsValue_build x e,
        termsValue_buildAll x es, valueAll]

end

mutual

/-- The terms of a formula are in the columns that it mentions, whatever their coefficients. -/
theorem columns_build : (e : Formula) → e.build.terms.map Term.column = e.columns
  | var column => rfl
  | term t => rfl
  | sum ts => rfl
  | neg e => by
      rw [build, Expr.terms_neg, List.map_map, columns, ← columns_build e]
      rfl
  | scale factor e => by
      rw [build, Expr.terms_scale, List.map_map, columns, ← columns_build e]
      rfl
  | add e f => by
      rw [build, Expr.terms_add, List.map_append, columns_build e, columns_build f, columns]
  | sub e f => by
      rw [build, Expr.terms_sub, Expr.terms_neg, List.map_append, List.map_map, columns,
        ← columns_build e, ← columns_build f]
      rfl
  | addAssign e f => by
      rw [build, Expr.terms_add, Expr.terms_toSum, List.map_append, columns_build e,
        columns_build f, columns]
  | subAssign e f => by
      rw [build, Expr.terms_sub, Expr.terms_toSum, Expr.terms_neg, List.map_append, List.map_map,
        columns, ← columns_build e, ← columns_build f]
      rfl
  | mulAssign e factor => by
      rw [build, Expr.terms_scale, Expr.terms_toSum, List.map_map, columns, ← columns_build e]
      rfl
  | push e t => by
      rw [build, Expr.terms_add, Expr.terms_toSum, List.map_append, columns_build e, columns]
      rfl
  | extend e ts => by
      rw [build, Expr.terms_add, Expr.terms_toSum, List.map_append, columns_build e, columns]
      rfl
  | totalVars columns => by
      rw [build, terms_totalVars, List.map_map, Formula.columns]
      exact List.map_id columns
  | total es => by rw [build, Expr.terms_total, columns_buildAll es, columns]

theorem columns_buildAll :
    (es : List Formula) → ((buildAll es).flatMap Expr.terms).map Term.column = columnsAll es
  | [] => rfl
  | e :: es => by
      rw [buildAll, List.flatMap_cons, Expr.terms_toSum, List.map_append, columns_build e,
        columns_buildAll es, columnsAll]

end

end Formula
end LinProg
