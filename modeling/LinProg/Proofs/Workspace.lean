/-
A workspace carries nothing over from one expression to the next.

Whatever calls a workspace has seen, both of its lists are as long as the
longest thing that was asked of it.  Laying an expression out copies its terms
over the front of both lists at once.  The copying would stop silently where
one of them ends; as there is room for all terms in both, it never stops early,
and what is in front is the expression and nothing else.  Behind it lies what
was there before, unless the lists had to grow.  A refused expression changes
nothing.
-/
import LinProg.Proofs.Solver.Denotation

namespace LinProg.Workspace

variable {α : Type}

/-! ## Copying -/

/-- Copy terms over the front of two lists, as far as the shortest of the three goes: a loop over
what `izip` of itertools, as documented, zips. -/
def copy : List (Term α) → List ℕ → List α → List ℕ × List α
  | t :: ts, _ :: columns, _ :: coefficients =>
      let rest := copy ts columns coefficients
      (t.column :: rest.1, t.coefficient :: rest.2)
  | _, columns, coefficients => (columns, coefficients)

theorem copy_eq_overwrite {ts : List (Term α)} {w : Workspace α}
    (hcolumns : ts.length ≤ w.columns.length)
    (hcoefficients : ts.length ≤ w.coefficients.length) :
    copy ts w.columns w.coefficients
      = ((w.overwrite ts).columns, (w.overwrite ts).coefficients) := by
  obtain ⟨columns, coefficients⟩ := w
  show copy ts columns coefficients
    = (_ ++ columns.drop ts.length, _ ++ coefficients.drop ts.length)
  induction ts generalizing columns coefficients with
  | nil => rfl
  | cons t ts ih =>
      cases columns with
      | nil => exact absurd hcolumns (by simp)
      | cons column columns =>
          cases coefficients with
          | nil => exact absurd hcoefficients (by simp)
          | cons coefficient coefficients =>
              rw [copy, ih columns coefficients (Nat.le_of_succ_le_succ hcolumns)
                (Nat.le_of_succ_le_succ hcoefficients)]
              rfl

/-! ## Room -/

structure HasRoom (n : ℕ) (w : Workspace α) : Prop where
  columns : w.columns.length = n
  coefficients : w.coefficients.length = n

theorem hasRoom_empty : HasRoom 0 (empty : Workspace α) := ⟨rfl, rfl⟩

theorem HasRoom.overwrite {n : ℕ} {w : Workspace α} (h : w.HasRoom n) {ts : List (Term α)}
    (hts : ts.length ≤ n) : (w.overwrite ts).HasRoom n := by
  refine ⟨?_, ?_⟩
  · rw [Workspace.overwrite, List.length_append, List.length_map, List.length_drop, h.columns]
    omega
  · rw [Workspace.overwrite, List.length_append, List.length_map, List.length_drop,
      h.coefficients]
    omega

variable [Scalar α] {n : ℕ} {w : Workspace α} {e : Expr α}

/-- A workspace grows to exactly the length that is asked for, if it is shorter. -/
theorem HasRoom.ensure (h : w.HasRoom n) (length : ℕ) :
    (w.ensure length).HasRoom (max n length) := by
  rw [Workspace.ensure, capacity, h.columns]
  split
  case isTrue hshort =>
    rw [max_eq_right hshort.le]
    exact ⟨List.length_replicate, List.length_replicate⟩
  case isFalse hlong =>
    rw [max_eq_left (not_lt.mp hlong)]
    exact h

theorem ensure_of_le (h : n ≤ w.capacity) : w.ensure n = w := if_neg h.not_gt

/-! ## Expressions laid out -/

theorem HasRoom.laidOut (h : w.HasRoom n) (e : Expr α) :
    ((w.ensure e.length).overwrite e.terms).HasRoom (max n e.length) :=
  (h.ensure e.length).overwrite (le_max_right n e.length)

/-! ## Histories -/

inductive Call (α : Type) where
  | ensure (length : ℕ)
  | layOut (e : Expr α)
deriving DecidableEq

/-- The number of terms that a call needs room for; a refused expression needs none. -/
def Call.room : Call α → ℕ
  | ensure length => length
  | layOut e => if 0 ∈ e.terms.map Term.column then 0 else e.length

/-- The workspace after a call; a refused expression leaves it as it is. -/
def after (w : Workspace α) : Call α → Workspace α
  | .ensure length => w.ensure length
  | .layOut e =>
      match w.layOut e with
      | .ok w' => w'
      | .error _ => w

def afterAll (calls : List (Call α)) : Workspace α := calls.foldl after empty

theorem HasRoom.after (h : w.HasRoom n) (call : Call α) :
    (w.after call).HasRoom (max n call.room) := by
  cases call with
  | ensure length => exact h.ensure length
  | layOut e =>
      by_cases hzero : 0 ∈ e.terms.map Term.column
      · rw [Workspace.after, layOut_of_zero hzero, Call.room, if_pos hzero, max_eq_left n.zero_le]
        exact h
      · rw [Workspace.after, layOut_of_ne hzero, Call.room, if_neg hzero]
        exact h.laidOut e

theorem HasRoom.foldl_after (h : w.HasRoom n) (calls : List (Call α)) :
    (calls.foldl Workspace.after w).HasRoom (max n ((calls.map Call.room).foldr max 0)) := by
  induction calls generalizing n w with
  | nil => exact (max_eq_left n.zero_le).symm ▸ h
  | cons call calls ih =>
      have hrest := ih (h.after call)
      rw [max_assoc] at hrest
      exact hrest

theorem hasRoom_afterAll (calls : List (Call α)) :
    (afterAll calls).HasRoom ((calls.map Call.room).foldr max 0) := by
  have h := (hasRoom_empty (α := α)).foldl_after calls
  rw [max_eq_right (Nat.zero_le _)] at h
  exact h

/-- One workspace has an expression in front, and is another one otherwise. -/
structure LaidOut (w : Workspace α) (e : Expr α) (w' : Workspace α) : Prop where
  /-- The terms in front are those of the expression, in order and with their repetitions. -/
  listing : w'.listing e.length = Listing.ofTerms e.terms
  /-- They were copied over what was there once there was room. -/
  copied : copy e.terms (w.ensure e.length).columns (w.ensure e.length).coefficients
    = (w'.columns, w'.coefficients)
  /-- What lies behind them is kept, unless room had to be made. -/
  kept : e.length ≤ w.capacity → w'.columns.drop e.length = w.columns.drop e.length ∧
    w'.coefficients.drop e.length = w.coefficients.drop e.length

theorem HasRoom.laidOut_overwrite (h : w.HasRoom n) (e : Expr α) :
    LaidOut w e ((w.ensure e.length).overwrite e.terms) := by
  have hensured := h.ensure e.length
  have hroom : e.terms.length ≤ max n e.length := le_max_right n e.length
  refine ⟨listing_overwrite e.terms _, copy_eq_overwrite ?_ ?_, ?_⟩
  · exact hensured.columns.symm ▸ hroom
  · exact hensured.coefficients.symm ▸ hroom
  · intro hfits
    rw [ensure_of_le hfits]
    exact ⟨List.drop_left' (List.length_map _), List.drop_left' (List.length_map _)⟩

/-- After any calls both lists of a workspace are as long as the longest thing that it had to hold.
It then refuses an expression that mentions column 0 and is left as it is; any other it lays out
in front, whatever it has held before. -/
theorem carries_nothing_over (calls : List (Call α)) :
    (afterAll calls).columns.length = (calls.map Call.room).foldr max 0 ∧
    (afterAll calls).coefficients.length = (calls.map Call.room).foldr max 0 ∧
    ∀ e : Expr α,
      (0 ∈ e.terms.map Term.column →
        (afterAll calls).layOut e = .error .invalidColumn ∧
        afterAll (calls ++ [.layOut e]) = afterAll calls) ∧
      (0 ∉ e.terms.map Term.column →
        ∃ w, (afterAll calls).layOut e = .ok w ∧ afterAll (calls ++ [.layOut e]) = w ∧
          LaidOut (afterAll calls) e w) := by
  have hroom := hasRoom_afterAll calls
  have hnext : ∀ e, afterAll (calls ++ [.layOut e]) = (afterAll calls).after (.layOut e) :=
    fun _ => List.foldl_append
  refine ⟨hroom.columns, hroom.coefficients, ?_⟩
  intro e
  refine ⟨?_, ?_⟩
  · intro hzero
    have hrefused := layOut_of_zero (w := afterAll calls) hzero
    refine ⟨hrefused, ?_⟩
    rw [hnext, after, hrefused]
  · intro hzero
    have hlaid := layOut_of_ne (w := afterAll calls) hzero
    refine ⟨_, hlaid, ?_, hroom.laidOut_overwrite e⟩
    rw [hnext, after, hlaid]

/-- Three terms, then one with column 7, then three of which the last has column 0: the first is
over the front of the others, and the third changes nothing. -/
example :
    afterAll (α := ℚ)
        [.layOut (.sum [⟨1, 1⟩, ⟨2, 1⟩, ⟨3, 1⟩]), .layOut (.term ⟨7, -1⟩),
          .layOut (.sum [⟨4, 1⟩, ⟨4, 1⟩, ⟨0, 0⟩])]
      = ⟨[7, 2, 3], [-1, 1, 1]⟩ := by
  decide +kernel

end LinProg.Workspace
