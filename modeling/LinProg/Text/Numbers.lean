/-
Vectors as text: numerals separated by white space.
-/
import LinProg.Scalar
import LinProg.Text.Blank

namespace LinProg.Text

/-- The numbers that a text lists, if each of its words is a numeral with a value. -/
def numbers? {α : Type} [Scalar α] (text : String) : Option (List α) :=
  (words text.toList).mapM fun w => (Numeral.ofChars? w).bind Scalar.ofNumeral?

end LinProg.Text
