/-
The texts that denote a number, and the words of a text, by their grammar.

A numeral is read in one pass, which takes off a sign, then as many digits as
there are, then a point, and so on; it is never gone back on.  What is accepted
in this way is what the grammar generates, since no part of a numeral can begin
with a character that the part before it could still have taken.
-/
import Mathlib
import LinProg.Text.Numbers

namespace LinProg.Text

namespace Grammar

open Numeral (takeSign takeFraction exponent? decimal? word? ofChars?)

/-! ## The grammar -/

def digits : Language Char := {w | ∀ c ∈ w, c.isDigit = true}

def someDigits : Language Char := {w | w ≠ [] ∧ w ∈ digits}

def sign : Language Char := ({['+'], ['-']} : Set (List Char))

def point : Language Char := ({['.']} : Set (List Char))

def letter : Language Char := ({['e'], ['E']} : Set (List Char))

def exponent : Language Char := letter * ((1 + sign) * someDigits)

/-- Digits with at most one point, which may be the first or the last character. -/
def mantissa : Language Char :=
  someDigits + someDigits * point * digits + digits * point * someDigits

def decimal : Language Char := mantissa * (1 + exponent)

/-- The names of what is no number of finite size, in upper or lower case. -/
def name : Language Char :=
  {w | w.map Char.toLower = ['i', 'n', 'f'] ∨
    w.map Char.toLower = ['i', 'n', 'f', 'i', 'n', 'i', 't', 'y'] ∨
    w.map Char.toLower = ['n', 'a', 'n']}

def numeral : Language Char := (1 + sign) * (name + decimal)

variable {cs w x : List Char} {L : Language Char}

/-! ## Signs -/

/-- No text of a language begins with a sign. -/
def Unsigned (L : Language Char) : Prop := ∀ w ∈ L, ∀ c ∈ w.head?, c ≠ '+' ∧ c ≠ '-'

theorem takeSign_of_head (h : ∀ c ∈ cs.head?, c ≠ '+' ∧ c ≠ '-') : takeSign cs = (false, cs) := by
  unfold takeSign
  split
  · exact absurd rfl (h '-' rfl).2
  · exact absurd rfl (h '+' rfl).1
  · rfl

/-- What may have a sign in front has none when the sign is taken off. -/
theorem mem_signed (hL : Unsigned L) : cs ∈ (1 + sign) * L ↔ (takeSign cs).2 ∈ L := by
  constructor
  · rintro ⟨s, hs, w, hw, rfl⟩
    rcases hs with rfl | rfl | rfl
    · show (takeSign w).2 ∈ L
      rw [takeSign_of_head (hL w hw)]
      exact hw
    · exact hw
    · exact hw
  · intro h
    unfold takeSign at h
    split at h
    · rename_i cs
      exact ⟨['-'], Or.inr (Or.inr rfl), cs, h, rfl⟩
    · rename_i cs
      exact ⟨['+'], Or.inr (Or.inl rfl), cs, h, rfl⟩
    · exact ⟨[], Or.inl rfl, cs, h, rfl⟩

theorem unsigned_of_isDigit {c : Char} (h : c.isDigit = true) : c ≠ '+' ∧ c ≠ '-' := by
  refine ⟨?_, ?_⟩
  · rintro rfl
    exact absurd h (by decide)
  · rintro rfl
    exact absurd h (by decide)

theorem unsigned_someDigits : Unsigned someDigits := by
  rintro w ⟨-, hw⟩ c hc
  exact unsigned_of_isDigit (hw c (List.mem_of_head? hc))

/-! ## Exponents -/

theorem isSome_exponent? : (exponent? cs).isSome ↔ cs ∈ 1 + exponent := by
  cases cs with
  | nil => exact iff_of_true rfl (Or.inl rfl)
  | cons c cs =>
      have hmem : c :: cs ∈ 1 + exponent ↔ (c = 'e' ∨ c = 'E') ∧ (takeSign cs).2 ∈ someDigits := by
        rw [← mem_signed unsigned_someDigits]
        constructor
        · rintro (h | ⟨l, hl, w, hw, h⟩)
          · cases h
          · rcases hl with rfl | rfl
            · cases h
              exact ⟨Or.inl rfl, hw⟩
            · cases h
              exact ⟨Or.inr rfl, hw⟩
        · rintro ⟨rfl | rfl, h⟩
          · exact Or.inr ⟨['e'], Or.inl rfl, cs, h, rfl⟩
          · exact Or.inr ⟨['E'], Or.inr rfl, cs, h, rfl⟩
      have hdigits : (takeSign cs).2 ∈ someDigits
          ↔ (takeSign cs).2 ≠ [] ∧ (takeSign cs).2.all Char.isDigit = true := by
        rw [List.all_eq_true]
        rfl
      rw [hmem, hdigits, exponent?]
      by_cases hletter : c = 'e' ∨ c = 'E'
      · simp only [hletter, if_true, true_and, Option.isSome_ite]
      · simp only [hletter, if_false, false_and]
        exact iff_of_false Bool.false_ne_true id

/-- No exponent begins with what could still belong to the digits before it. -/
theorem head_of_mem_exponent (h : x ∈ 1 + exponent) :
    ∀ c ∈ x.head?, c.isDigit = false ∧ c ≠ '.' := by
  rcases h with rfl | ⟨l, hl, w, -, rfl⟩
  · exact nofun
  · rcases hl with rfl | rfl
    · intro c hc
      cases hc
      decide
    · intro c hc
      cases hc
      decide

/-! ## Decimal numbers -/

theorem mem_mantissa {w : List Char} : w ∈ mantissa ↔
    w ∈ someDigits ∨ ∃ whole ∈ digits, ∃ fraction ∈ digits,
      whole ++ fraction ≠ [] ∧ w = whole ++ '.' :: fraction := by
  constructor
  · rintro ((h | ⟨_, ⟨whole, hwhole, _, rfl, rfl⟩, fraction, hfraction, rfl⟩) |
      ⟨_, ⟨whole, hwhole, _, rfl, rfl⟩, fraction, hfraction, rfl⟩)
    · exact Or.inl h
    · refine Or.inr ⟨whole, hwhole.2, fraction, hfraction, ?_, ?_⟩
      · exact fun h => hwhole.1 (List.append_eq_nil_iff.mp h).1
      · exact List.append_assoc whole ['.'] fraction
    · refine Or.inr ⟨whole, hwhole, fraction, hfraction.2, ?_, ?_⟩
      · exact fun h => hfraction.1 (List.append_eq_nil_iff.mp h).2
      · exact List.append_assoc whole ['.'] fraction
  · rintro (h | ⟨whole, hwhole, fraction, hfraction, hne, rfl⟩)
    · exact Or.inl (Or.inl h)
    · have hassoc : (whole ++ ['.']) ++ fraction = whole ++ '.' :: fraction :=
        List.append_assoc whole ['.'] fraction
      by_cases hnone : whole = []
      · have hfraction' : fraction ≠ [] := fun h => hne (by rw [hnone, h]; rfl)
        exact Or.inr ⟨whole ++ ['.'], ⟨whole, hwhole, ['.'], rfl, rfl⟩, fraction,
          ⟨hfraction', hfraction⟩, hassoc⟩
      · exact Or.inl (Or.inr ⟨whole ++ ['.'], ⟨whole, ⟨hnone, hwhole⟩, ['.'], rfl, rfl⟩, fraction,
          hfraction, hassoc⟩)

theorem mem_digits_takeWhile (cs : List Char) : cs.takeWhile Char.isDigit ∈ digits := by
  intro c hc
  exact List.mem_takeWhile_imp hc

theorem span_digits (hw : w ∈ digits) (hx : ∀ c ∈ x.head?, c.isDigit = false) :
    (w ++ x).takeWhile Char.isDigit = w ∧ (w ++ x).dropWhile Char.isDigit = x := by
  have hnone : x.takeWhile Char.isDigit = [] ∧ x.dropWhile Char.isDigit = x := by
    cases x with
    | nil => exact ⟨rfl, rfl⟩
    | cons c x =>
        have hc : ¬ c.isDigit = true := by
          rw [hx c rfl]
          exact Bool.false_ne_true
        exact ⟨List.takeWhile_cons_of_neg hc, List.dropWhile_cons_of_neg hc⟩
  rw [List.takeWhile_append_of_pos hw, List.dropWhile_append_of_pos hw, hnone.1, hnone.2,
    List.append_nil]
  exact ⟨rfl, rfl⟩

theorem takeFraction_of_head (h : ∀ c ∈ cs.head?, c ≠ '.') : takeFraction cs = ([], cs) := by
  unfold takeFraction
  split
  · exact absurd rfl (h '.' rfl)
  · rfl

theorem takeFraction_cases (cs : List Char) :
    (∃ rest, cs = '.' :: rest ∧
      takeFraction cs = (rest.takeWhile Char.isDigit, rest.dropWhile Char.isDigit)) ∨
      takeFraction cs = ([], cs) := by
  unfold takeFraction
  split
  · exact Or.inl ⟨_, rfl, rfl⟩
  · exact Or.inr rfl

theorem isSome_decimal?_iff (negative : Bool) (cs : List Char) :
    (decimal? negative cs).isSome ↔
      cs.takeWhile Char.isDigit ++ (takeFraction (cs.dropWhile Char.isDigit)).1 ≠ [] ∧
        (takeFraction (cs.dropWhile Char.isDigit)).2 ∈ 1 + exponent := by
  rw [← isSome_exponent?, decimal?]
  simp only
  split
  · rename_i hnone
    exact iff_of_false Bool.false_ne_true fun h => h.1 hnone
  · rename_i hsome
    rw [Option.isSome_map]
    exact (and_iff_right hsome).symm

theorem isSome_decimal? (negative : Bool) : (decimal? negative cs).isSome ↔ cs ∈ decimal := by
  rw [isSome_decimal?_iff]
  constructor
  · rintro ⟨hne, hexponent⟩
    have hwhole := mem_digits_takeWhile cs
    have hsplit : cs.takeWhile Char.isDigit ++ cs.dropWhile Char.isDigit = cs :=
      List.takeWhile_append_dropWhile
    generalize cs.takeWhile Char.isDigit = whole at hwhole hsplit hne
    generalize cs.dropWhile Char.isDigit = rest at hsplit hne hexponent
    subst hsplit
    rcases takeFraction_cases rest with ⟨cs, rfl, htake⟩ | htake
    · rw [htake] at hne hexponent
      have hfraction : cs.takeWhile Char.isDigit ++ cs.dropWhile Char.isDigit = cs :=
        List.takeWhile_append_dropWhile
      refine ⟨whole ++ '.' :: cs.takeWhile Char.isDigit, ?_, cs.dropWhile Char.isDigit, hexponent,
        ?_⟩
      · exact mem_mantissa.mpr (Or.inr ⟨whole, hwhole, _, mem_digits_takeWhile cs, hne, rfl⟩)
      · show (whole ++ '.' :: cs.takeWhile Char.isDigit) ++ cs.dropWhile Char.isDigit = _
        rw [List.append_assoc, List.cons_append, hfraction]
    · rw [htake] at hne hexponent
      rw [List.append_nil] at hne
      exact ⟨whole, mem_mantissa.mpr (Or.inl ⟨hne, hwhole⟩), rest, hexponent, rfl⟩
  · rintro ⟨m, hm, x, hx, rfl⟩
    have hhead := head_of_mem_exponent hx
    show (m ++ x).takeWhile Char.isDigit ++ (takeFraction ((m ++ x).dropWhile Char.isDigit)).1 ≠ []
      ∧ (takeFraction ((m ++ x).dropWhile Char.isDigit)).2 ∈ 1 + exponent
    rcases mem_mantissa.mp hm with ⟨hne, hdigits⟩ | ⟨whole, hwhole, fraction, hfraction, hne, rfl⟩
    · obtain ⟨htake, hdrop⟩ := span_digits hdigits fun c hc => (hhead c hc).1
      rw [htake, hdrop, takeFraction_of_head fun c hc => (hhead c hc).2]
      exact ⟨by simpa using hne, hx⟩
    · obtain ⟨htake, hdrop⟩ := span_digits (x := '.' :: (fraction ++ x)) hwhole
        (by intro c hc; cases hc; rfl)
      obtain ⟨htake', hdrop'⟩ := span_digits hfraction fun c hc => (hhead c hc).1
      rw [List.append_assoc, List.cons_append, htake, hdrop, takeFraction, htake', hdrop']
      exact ⟨hne, hx⟩

/-! ## Numerals -/

theorem isSome_word? (negative : Bool) : (word? negative cs).isSome ↔ cs ∈ name := by
  have hmem : cs ∈ name ↔ _ ∨ _ ∨ _ := Iff.rfl
  rw [hmem, ← or_assoc, word?]
  split
  · rename_i h
    exact iff_of_true rfl (Or.inl h)
  · rename_i h
    split
    · rename_i h'
      exact iff_of_true rfl (Or.inr h')
    · rename_i h'
      exact iff_of_false Bool.false_ne_true fun hor => hor.elim h h'

theorem unsigned_name : Unsigned name := by
  intro w hw c hc
  cases w with
  | nil => cases hc
  | cons d w =>
      cases hc
      have hletter : c.toLower = 'i' ∨ c.toLower = 'n' := by
        rcases hw with h | h | h
        · exact Or.inl (List.cons.inj h).1
        · exact Or.inl (List.cons.inj h).1
        · exact Or.inr (List.cons.inj h).1
      refine ⟨?_, ?_⟩
      · rintro rfl
        exact absurd hletter (by decide)
      · rintro rfl
        exact absurd hletter (by decide)

theorem unsigned_decimal : Unsigned decimal := by
  rintro _ ⟨m, hm, x, -, rfl⟩ c hc
  have hhead : c ∈ m.head? ∨ m = [] := by
    cases m with
    | nil => exact Or.inr rfl
    | cons d m => exact Or.inl hc
  rcases mem_mantissa.mp hm with hdigits | ⟨whole, hwhole, fraction, -, -, rfl⟩
  · exact unsigned_someDigits m hdigits c (hhead.resolve_right hdigits.1)
  · cases whole with
    | nil =>
        cases hc
        decide
    | cons d whole =>
        cases hc
        exact unsigned_of_isDigit (hwhole _ List.mem_cons_self)

/-- What is read as a numeral is what the grammar generates. -/
theorem isSome_ofChars? : (ofChars? cs).isSome ↔ cs ∈ numeral := by
  have hunsigned : Unsigned (name + decimal) := by
    rintro w (hw | hw)
    · exact unsigned_name w hw
    · exact unsigned_decimal w hw
  have hor : (takeSign cs).2 ∈ name + decimal
      ↔ (word? (takeSign cs).1 (takeSign cs).2).isSome ∨
        (decimal? (takeSign cs).1 (takeSign cs).2).isSome := by
    rw [isSome_word?, isSome_decimal?]
    rfl
  rw [numeral, mem_signed hunsigned, hor]
  show ((word? (takeSign cs).1 (takeSign cs).2).orElse
    fun _ => decimal? (takeSign cs).1 (takeSign cs).2).isSome ↔ _
  cases word? (takeSign cs).1 (takeSign cs).2 with
  | none => exact (or_iff_right Bool.false_ne_true).symm
  | some n => exact iff_of_true rfl (Or.inl rfl)

/-! ## Words -/

/-- The words of a text are what is not empty between its blanks. -/
theorem words_eq (cs : List Char) :
    words cs = (cs.splitOnP isBlank).filter fun w => !w.isEmpty := by
  have hcons := List.splitOnP_cons_eq_if_modifyHead (p := isBlank)
  fun_induction words cs with
  | case1 => rfl
  | case2 c h => simp [hcons, h]
  | case3 c h => simp [hcons, h]
  | case4 c d cs h ih =>
      rw [ih, hcons c, if_pos h]
      rfl
  | case5 c d cs h hd ih =>
      rw [hcons d, if_pos hd] at ih
      rw [ih, hcons c, if_neg h, hcons d, if_pos hd]
      rfl
  | case6 c d cs h hd ih =>
      obtain ⟨w, ws, hsplit⟩ := List.exists_cons_of_ne_nil (List.splitOnP_ne_nil isBlank cs)
      rw [hcons d, if_neg hd, hsplit] at ih
      rw [ih, hcons c, if_neg h, hcons d, if_neg hd, hsplit]
      rfl

end Grammar

/-! ## The numbers of a text -/

/-- What is not empty between the blanks of a text. -/
def tokens (text : String) : List (List Char) :=
  (text.toList.splitOnP isBlank).filter fun w => !w.isEmpty

section Numbers

variable {α : Type} [Scalar α] {ι : Type} {text : String} {values : List α}

/-- The scalar that a token denotes, if it is a numeral with a value. -/
def value? (w : List Char) : Option α := (Numeral.ofChars? w).bind Scalar.ofNumeral?

omit [Scalar α] in
theorem mapM_eq_some {f : ι → Option α} {xs : List ι} :
    xs.mapM f = some values ↔ List.Forall₂ (fun x y => f x = some y) xs values := by
  induction xs generalizing values with
  | nil => simp [eq_comm]
  | cons x xs ih =>
      rw [List.mapM_cons, List.forall₂_cons_left_iff, Option.bind_eq_bind, Option.bind_eq_some_iff]
      refine exists_congr fun y => ?_
      rw [exists_and_left, Option.bind_eq_bind, Option.bind_eq_some_iff]
      simp only [ih, Option.pure_def, Option.some.injEq, eq_comm]

omit [Scalar α] in
theorem isSome_mapM {f : ι → Option α} {xs : List ι} :
    (xs.mapM f).isSome ↔ ∀ x ∈ xs, (f x).isSome := by
  induction xs with
  | nil => simp
  | cons x xs ih =>
      rw [List.mapM_cons, List.forall_mem_cons, ← ih]
      cases f x with
      | none => simp
      | some y => cases xs.mapM f <;> simp

/-- The numbers that a text lists are those that its tokens denote, in their order. -/
theorem numbers?_eq_some :
    numbers? text = some values
      ↔ List.Forall₂ (fun w x => value? w = some x) (tokens text) values := by
  rw [tokens, ← Grammar.words_eq]
  exact mapM_eq_some

theorem isSome_numbers? :
    (numbers? text : Option (List α)).isSome
      ↔ ∀ w ∈ tokens text, (value? w : Option α).isSome := by
  rw [tokens, ← Grammar.words_eq]
  exact isSome_mapM

end Numbers

/-- A floating point number is denoted by every numeral. -/
theorem isSome_value? {w : List Char} : (value? w : Option Float).isSome ↔ w ∈ Grammar.numeral := by
  have hall : ∀ n : Numeral, (Scalar.ofNumeral? n : Option Float).isSome := by
    intro n
    cases n with
    | decimal negative m e => rfl
    | infinite negative => rfl
    | undefined => rfl
  rw [← Grammar.isSome_ofChars?, value?]
  cases Numeral.ofChars? w with
  | none => exact Iff.rfl
  | some n => exact iff_of_true (hall n) rfl

end LinProg.Text
