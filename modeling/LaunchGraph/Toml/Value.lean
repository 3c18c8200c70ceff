import LaunchGraph.Numeric.Binary64
import LaunchGraph.Toml.Datetime

/-!
# Values

The values of a TOML document.  The entries of a table stand in increasing order of their keys.

A document may hold a number that stands for none that can be held: one that is too large, or one
with characters among its digits that are none.  Only a reader who looks at it has to refuse it.
-/

namespace LaunchGraph.Toml

inductive Value where
  | string (s : String)
  | int (i : Int)
  | float (x : Binary64)
  /-- A number that neither of the two kinds above can hold, as it is written. -/
  | badNumber (literal : String)
  | bool (b : Bool)
  | datetime (d : Datetime)
  | array (items : List Value)
  | table (entries : List (String × Value))
deriving Repr, Inhabited

mutual

/-- No number in a value is bad. -/
def Value.isSound : Value → Bool
  | .badNumber _ => false
  | .array items => allSound items
  | .table es => entriesSound es
  | _ => true

/-- No number in a list of values is bad. -/
def allSound : List Value → Bool
  | [] => true
  | v :: vs => v.isSound && allSound vs

/-- No number in the values of some entries is bad. -/
def entriesSound : List (String × Value) → Bool
  | [] => true
  | (_, v) :: es => v.isSound && entriesSound es

end

end LaunchGraph.Toml
