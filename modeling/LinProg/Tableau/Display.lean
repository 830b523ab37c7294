/-
A tableau as text: one line for the relative costs and one for each row,
headed by its basic column.
-/
import LinProg.Tableau.Basic
import LinProg.Text.Fixed

namespace LinProg
namespace Tableau

/-- Numbers in a tableau have three places and take up at least eight characters. -/
def cell (x : Float) : String := Text.Fixed.alignRight 8 (Text.Fixed.render 3 x)

/-- A heading, a tabulator, and the numbers of a row. -/
def displayRow (heading : String) (entries : List Float) : String :=
  heading ++ "\t" ++ " ".intercalate (entries.map cell) ++ "\n"

def display (t : Tableau Float) : String :=
  displayRow "cost" t.costs
    ++ String.join (t.lines.map fun l => displayRow ("x" ++ toString l.basic) l.entries)

end Tableau
end LinProg
