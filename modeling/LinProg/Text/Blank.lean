/-
Blank characters and the words between them.

The class is the Unicode property White_Space, 25 code points.  `words`
cuts a text into its maximal blank-free runs; the lemmas below say that
no word is empty and that no word holds a blank.
-/

namespace LinProg.Text

/-- The code points of the property White_Space, as closed ranges in increasing order. -/
def blankRanges : List (Nat × Nat) :=
  [(0x09, 0x0D), (0x20, 0x20), (0x85, 0x85), (0xA0, 0xA0), (0x1680, 0x1680),
   (0x2000, 0x200A), (0x2028, 0x2029), (0x202F, 0x202F), (0x205F, 0x205F), (0x3000, 0x3000)]

/-- Whether a character is white space. -/
def isBlank (c : Char) : Bool :=
  blankRanges.any fun (first, last) => first ≤ c.toNat && c.toNat ≤ last

/-- Put a character in front of the first word. -/
def consWord (c : Char) : List (List Char) → List (List Char)
  | [] => [[c]]
  | w :: ws => (c :: w) :: ws

/-- The maximal blank-free runs of a text, in order. -/
def words : List Char → List (List Char)
  | [] => []
  | [c] => if isBlank c then [] else [[c]]
  | c :: d :: cs =>
      if isBlank c then words (d :: cs)
      else if isBlank d then [c] :: words (d :: cs)
      else consWord c (words (d :: cs))

theorem isBlank_of_isWhitespace {c : Char} (h : c.isWhitespace = true) : isBlank c = true := by
  simp only [Char.isWhitespace, Bool.or_eq_true, decide_eq_true_eq] at h
  rcases h with ((rfl | rfl) | rfl) | rfl <;> decide

/-- A property of lists that holds of the new one-letter words and is kept when a nonblank
letter is put in front holds of every word. -/
theorem words_induction {P : List Char → Prop} (single : ∀ c, isBlank c = false → P [c])
    (cons : ∀ c w, isBlank c = false → P w → P (c :: w)) (cs : List Char) :
    ∀ w ∈ words cs, P w := by
  fun_induction words cs with
  | case1 => simp
  | case2 => simp
  | case3 c h => simpa using single c (by simpa using h)
  | case4 c d cs _ ih => exact ih
  | case5 c d cs h _ ih =>
    intro w hw
    rcases List.mem_cons.1 hw with rfl | hw
    · exact single c (by simpa using h)
    · exact ih w hw
  | case6 c d cs h _ ih =>
    revert ih
    cases words (d :: cs) with
    | nil => simpa [consWord] using single c (by simpa using h)
    | cons v vs =>
      intro ih w hw
      rcases List.mem_cons.1 hw with rfl | hw
      · exact cons c v (by simpa using h) (ih v (by simp))
      · exact ih w (by simp [hw])

theorem ne_nil_of_mem_words {w cs : List Char} (h : w ∈ words cs) : w ≠ [] :=
  words_induction (P := (· ≠ [])) (by simp) (by simp) cs w h

theorem not_isBlank_of_mem_words {w cs : List Char} (h : w ∈ words cs) :
    ∀ c ∈ w, isBlank c = false :=
  words_induction (P := fun w => ∀ c ∈ w, isBlank c = false) (by simp) (by simp_all) cs w h

end LinProg.Text
