import LaunchGraph.Kernel.Signature

/-!
# Kernels

A kernel is a name with a signature.  Its code is the device's business; the scheduler needs the
signature to check calls, and to learn which arguments are arrays and which of them are only
read.  A call is accepted as a whole or not at all.
-/

namespace LaunchGraph

/-- A value that a caller supplies for a parameter. -/
inductive CallValue where
  | array (buffer : BufferId) (type : ElementType)
  | int (i : Int)
  | float (x : Binary64)
  | bool (b : Bool)
deriving DecidableEq, Repr

def CallValue.kind : CallValue → ValueKind
  | .array _ t => .array t
  | .int _ => .integer
  | .float _ => .floating
  | .bool _ => .bool

/-- The argument a value makes for a parameter, if it fits.  An untyped pointer takes every array,
and integers widen to floating point numbers. -/
def Parameter.accept? : Parameter → CallValue → Option Argument
  | .pointer t isConst, .array b u =>
      if t = .void ∨ t = u then some (.array u b isConst) else none
  | .scalar t, .int i =>
      if t.isInteger then some (.scalar t (.int i))
      else if t.isFloating then some (.scalar t (.float (.ofInt i)))
      else none
  | .scalar t, .float x => if t.isFloating then some (.scalar t (.float x)) else none
  | .scalar t, .bool b => if t = .bool then some (.scalar t (.bool b)) else none
  | _, _ => none

/-- A kernel with its parameters, and how often it was launched. -/
structure Kernel where
  id : KernelId
  name : String
  signature : String
  parameters : List Parameter
  launchCount : Nat := 0
deriving DecidableEq, Repr

namespace Kernel

/-- A kernel with the parameters that its signature lists. -/
def new (id : KernelId) (name signature : String) : Except Error Kernel :=
  match Signature.parse signature with
  | .ok parameters => .ok { id, name, signature, parameters }
  | .error e => .error e

def text (k : Kernel) : String := k.name ++ "(" ++ k.signature ++ ")"

/-- The arguments that values make for parameters, which are counted from `index`. -/
def bindFrom (name : String) (index : Nat) :
    List Parameter → List CallValue → Except Error (List Argument)
  | p :: ps, v :: vs =>
      match p.accept? v with
      | none => .error (.argumentType name index p.type v.kind)
      | some a =>
          match bindFrom name (index + 1) ps vs with
          | .ok as => .ok (a :: as)
          | .error e => .error e
  | _, _ => .ok []

/-- The arguments of a call.  The number of values is checked first, then each value in order. -/
def bind (k : Kernel) (values : List CallValue) : Except Error (List Argument) :=
  if values.length = k.parameters.length then bindFrom k.name 0 k.parameters values
  else .error (.arity k.name k.parameters.length values.length)

/-- A launch of the kernel, and the kernel with that launch counted. -/
def launch (k : Kernel) (config : LaunchConfig) (values : List CallValue) :
    Except Error (Element × Kernel) :=
  match k.bind values with
  | .ok arguments =>
      .ok (.new (.launch k.id k.name config) arguments,
        { k with launchCount := k.launchCount + 1 })
  | .error e => .error e

end Kernel

end LaunchGraph
