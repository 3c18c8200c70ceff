import LaunchGraph.Context

/-!
# Workloads

A workload that can be run: the arrays and kernels it declares, and its steps in order.
-/

namespace LaunchGraph

/-- A declared array. -/
structure ArraySpec where
  type : ElementType
  length : Nat
deriving DecidableEq, Repr

/-- A declared kernel. -/
structure KernelSpec where
  signature : String
  parameters : List Parameter
deriving DecidableEq, Repr

/-- An argument of a launch: an array by its name, or a number. -/
inductive StepArgument where
  | array (name : String)
  | int (i : Int)
  | float (x : Binary64)
  | bool (b : Bool)
deriving DecidableEq, Repr

namespace StepArgument

def text : StepArgument → String
  | .array name => name
  | .int i => toString i
  | .float x => x.text
  | .bool b => if b then "true" else "false"

/-- The value that an argument passes to a kernel, where `find` knows the arrays. -/
def resolve (find : String → Except Error CallValue) : StepArgument → Except Error CallValue
  | .array name => find name
  | .int i => .ok (.int i)
  | .float x => .ok (.float x)
  | .bool b => .ok (.bool b)

end StepArgument

/-- What a workload does in one place. -/
inductive Step where
  | launch (kernel : String) (args : List StepArgument) (config : LaunchConfig)
  /-- The host reads or writes an array. -/
  | access (array : String) (write : Bool)
deriving DecidableEq, Repr

def Step.text : Step → String
  | .launch kernel args _ => kernel ++ "(" ++ ", ".intercalate (args.map StepArgument.text) ++ ")"
  | .access array true => "write " ++ array
  | .access array false => "read " ++ array

structure Workload where
  options : ContextOptions
  arrays : Table String ArraySpec
  kernels : Table String KernelSpec
  steps : List Step
deriving DecidableEq

end LaunchGraph
