/-
Misuse of the expression algebra or of the solver.

A model that refuses an edit is no error: refusals are answers.  Each
error has a code for programs and a message for readers.
-/

namespace LinProg

/-- What a caller did wrong. -/
inductive Error where
  /-- A row was to say that an expression differs from a number. -/
  | unsupportedRelation
  /-- An expression mentions column 0. -/
  | invalidColumn
  | rowOutOfRange (index count : Nat)
  | columnOutOfRange (index count : Nat)
deriving DecidableEq

namespace Error

/-- The name of an error for programs. -/
def code : Error → String
  | unsupportedRelation => "RELATION_UNSUPPORTED"
  | invalidColumn => "COLUMN_INVALID"
  | rowOutOfRange .. => "ROW_OUT_OF_RANGE"
  | columnOutOfRange .. => "COLUMN_OUT_OF_RANGE"

def text : Error → String
  | unsupportedRelation => "Inequality is not supported as a constraint type"
  | invalidColumn => "Column index 0 does not exist, columns are numbered from 1"
  | rowOutOfRange index count =>
      "Row " ++ toString index ++ " does not exist, the model has " ++ toString count ++ " rows"
  | columnOutOfRange index count =>
      "Column " ++ toString index ++ " does not exist, the model has " ++ toString count
        ++ " columns"

/-- The full message: the code in brackets, then the text. -/
def message (e : Error) : String := "[" ++ e.code ++ "] " ++ e.text

end Error

end LinProg
