import LaunchGraph.Ident
import LaunchGraph.ElementType
import LaunchGraph.Numeric.Shortest

/-!
# Arguments

An argument of a computation is a device array, read only or written, or a scalar.  Dependencies
compare nothing but the buffers of arrays and the way they are used; a scalar may carry the
number of a buffer as its value without referring to that buffer.
-/

namespace LaunchGraph

/-- The value of a scalar. -/
inductive Value where
  | buffer (id : BufferId)
  | int (i : Int)
  | float (x : Binary64)
  | bool (b : Bool)
deriving DecidableEq, Repr

/-- One argument of a computation. -/
inductive Argument where
  /-- A device array; `isConst` marks an array that is only read. -/
  | array (type : ElementType) (buffer : BufferId) (isConst : Bool)
  | scalar (type : ElementType) (value : Value)
deriving DecidableEq, Repr

namespace Value

def text : Value → String
  | .buffer b => b.text
  | .int i => toString i
  | .float x => x.text
  | .bool b => toString b

end Value

namespace Argument

def type : Argument → ElementType
  | .array t _ _ => t
  | .scalar t _ => t

def isArray : Argument → Bool
  | .array .. => true
  | .scalar .. => false

/-- Whether the computation leaves the argument as it is; it never changes a scalar. -/
def isConst : Argument → Bool
  | .array _ _ c => c
  | .scalar .. => true

/-- The argument with an array marked as read only, or as written. -/
def withConst (isConst : Bool) : Argument → Argument
  | .array t b _ => .array t b isConst
  | .scalar t v => .scalar t v

def value : Argument → Value
  | .array _ b _ => .buffer b
  | .scalar _ v => v

/-- The buffer the argument refers to. -/
def buffer? : Argument → Option BufferId
  | .array _ b _ => some b
  | .scalar .. => none

/-- Both arguments refer to the same buffer. -/
def aliases (a b : Argument) : Bool :=
  match a.buffer?, b.buffer? with
  | some x, some y => x == y
  | _, _ => false

def text (a : Argument) : String :=
  match a.value with
  | .buffer b => (if a.isConst then "const " else "") ++ a.type.name ++ "* " ++ b.text
  | v => a.type.name ++ " " ++ v.text

end Argument

end LaunchGraph
