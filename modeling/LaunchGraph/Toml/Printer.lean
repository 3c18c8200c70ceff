import LaunchGraph.Numeric.Shortest
import LaunchGraph.Toml.Document

/-!
# Writing values

A value on one line, the entries of a table by key.
-/

namespace LaunchGraph.Toml

/-- A floating point number always has a fraction, and what is not a number has no sign. -/
def floatText (x : Binary64) : String :=
  if x.isNaN then "nan" else if x.isWhole then x.text ++ ".0" else x.text

/-- A key in the first form that can hold it. -/
def keyText (k : String) : String :=
  let cs := k.toList
  let control := cs.any fun c => !isPlain c
  if !cs.isEmpty ∧ cs.all isBareKeyChar then k
  else if !control ∧ !cs.contains '\x27' ∧ (cs.contains '\x22' ∨ cs.contains '\x5c') then
    String.ofList (Quoted.writeLiteral cs)
  else String.ofList (Quoted.writeLine cs)

/-- A table with the given entries; an empty one has no blanks. -/
def tableText (es : List String) : String :=
  if es.isEmpty then "\x7b\x7d" else "\x7b " ++ ", ".intercalate es ++ " \x7d"

mutual

/-- The text of a value. -/
def Value.text : Value → String
  | .string s => Quoted.write s
  | .int i => toString i
  | .float x => floatText x
  | .badNumber literal => literal
  | .bool b => if b then "true" else "false"
  | .datetime d => d.text
  | .array items => "[" ++ ", ".intercalate (itemTexts items) ++ "]"
  | .table es => tableText (entryTexts es)

/-- The texts of the items of an array. -/
def itemTexts : List Value → List String
  | [] => []
  | v :: vs => v.text :: itemTexts vs

/-- The texts of the entries of a table. -/
def entryTexts : List (String × Value) → List String
  | [] => []
  | (k, v) :: es => (keyText k ++ " = " ++ v.text) :: entryTexts es

end

end LaunchGraph.Toml
