import LaunchGraph.Text.Blank
import LaunchGraph.Text.Lowercase

/-!
# Element types

What the elements of an array, or a scalar argument, are.  A type has one name that is printed,
and some types have a second one that is also read; names are read without regard to letter case
and to blanks around them.
-/

namespace LaunchGraph

/-- The type of one element. -/
inductive ElementType where
  | bool | sint8 | sint16 | sint32 | sint64 | float | double
  /-- Untyped memory, which only a pointer can refer to. -/
  | void
deriving DecidableEq, Repr, Inhabited

namespace ElementType

/-- The size of one element in bytes; untyped memory counts in bytes. -/
def size : ElementType → Nat
  | .bool | .sint8 | .void => 1
  | .sint16 => 2
  | .sint32 | .float => 4
  | .sint64 | .double => 8

def isInteger : ElementType → Bool
  | .sint8 | .sint16 | .sint32 | .sint64 => true
  | _ => false

def isFloating : ElementType → Bool
  | .float | .double => true
  | _ => false

/-- The name that is printed. -/
def name : ElementType → String
  | .bool => "bool"
  | .sint8 => "sint8"
  | .sint16 => "sint16"
  | .sint32 => "sint32"
  | .sint64 => "sint64"
  | .float => "float"
  | .double => "double"
  | .void => "void"

/-- The type with a given name, in lower case. -/
def ofName? : String → Option ElementType
  | "bool" => some .bool
  | "char" | "sint8" => some .sint8
  | "short" | "sint16" => some .sint16
  | "int" | "sint32" => some .sint32
  | "long" | "sint64" => some .sint64
  | "float" => some .float
  | "double" => some .double
  | "void" => some .void
  | _ => none

/-- The type a text names; otherwise the name that is unknown, in lower case. -/
def read (s : String) : Except String ElementType :=
  let name := Text.lower (Text.trim s)
  match ofName? name with
  | some t => .ok t
  | none => .error name

/-- How an unknown type name is reported. -/
def unknownMessage (name : String) : String := s!"unknown argument type '{name}'"

end ElementType

end LaunchGraph
