/-
A one-line description of an engine.
-/
import LinProg.Engine.Basic
import LinProg.Engine.Attributes
import LinProg.Text.Quoted

namespace LinProg
namespace Engine

variable {α : Type} [Scalar α]

/-- The title, the size, the mode and the status of an engine. -/
def display (e : Engine α) : String :=
  "Engine \x7b lp_name: " ++ Text.Quoted.quote e.title
    ++ ", rows: " ++ toString e.nrRows
    ++ ", columns: " ++ toString e.nrColumns
    ++ ", add_row_mode: " ++ toString e.rowMode
    ++ ", status: " ++ e.status.name
    ++ ", .. \x7d"

end Engine
end LinProg
