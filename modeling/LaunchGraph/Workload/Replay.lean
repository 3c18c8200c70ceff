import LaunchGraph.Session
import LaunchGraph.Workload

/-!
# Running workloads

A workload is run through a session on a fresh device: its arrays are allocated and its kernels
declared, by name, then its steps are submitted in order and waited for.
-/

namespace LaunchGraph

namespace Workload

/-- Allocates the arrays of a workload. -/
def allocateArrays (w : Workload) : Action Session (List (String × DeviceArray)) :=
  Action.collect (fun (name, spec) => do
    let array ← Session.request (Context.allocateArray spec.type spec.length)
    pure (name, array)) w.arrays.entries

/-- Declares the kernels of a workload. -/
def declareKernels (w : Workload) : Action Session (List (String × KernelId)) :=
  Action.collect (fun (name, spec) => do
    let id ← Session.request (Context.declareKernel name spec.signature)
    pure (name, id)) w.kernels.entries

/-- The array with a name. -/
def findArray (arrays : List (String × DeviceArray)) (name : String) : Except Error DeviceArray :=
  match Table.lookup name arrays with
  | some a => .ok a
  | none => .error (.notAllocated name)

/-- The values of the arguments of a step. -/
def callValues (arrays : List (String × DeviceArray)) :
    List StepArgument → Except Error (List CallValue)
  | [] => .ok []
  | arg :: rest => do
      let v ← arg.resolve fun name => do
        let a ← findArray arrays name
        .ok (.array a.buffer a.type)
      let vs ← callValues arrays rest
      .ok (v :: vs)

/-- Submits a step. -/
def submit (arrays : List (String × DeviceArray)) (kernels : List (String × KernelId)) :
    Step → Action Session VertexId
  | .launch kernel args config => do
      let values ← Action.ofExcept (callValues arrays args)
      match Table.lookup kernel kernels with
      | some id => Session.request (Context.launch id config values)
      | none => Action.fail (.notDeclared kernel)
  | .access name write => do
      let a ← Action.ofExcept (findArray arrays name)
      Session.request (Context.accessArray a write)

/-- Submits all steps and waits for them.  A step that fails does not end the run. -/
def replay (w : Workload) : Action Session (List VertexId) := do
  let arrays ← w.allocateArrays
  let kernels ← w.declareKernels
  let vertices ← Action.collect (submit arrays kernels) w.steps
  Session.request Context.synchronize
  Action.each (fun v => do
    let _ ← Action.attempt (Session.request (Context.wait v))) vertices
  pure vertices

/-- The session that a workload is run in. -/
def session (w : Workload) : Session := { context := Context.new w.options {} }

end Workload

/-- What is left of the run of a workload. -/
structure Outcome where
  vertices : List VertexId
  summary : Summary
  /-- The context that the session handed back. -/
  context : Context

namespace Workload

/-- The outcome of running a workload on a fresh device. The session is always shut down. -/
def outcome (w : Workload) : Except Halt Outcome :=
  let (vertices, s) := w.replay.run w.session
  let (summary, s) := (Session.request (Action.gets Context.summary)).run s
  let (ended, s) := Session.shutdown.run s
  do
    let summary ← summary
    ended
    let vertices ← vertices
    .ok { vertices, summary, context := s.context }

end Workload

end LaunchGraph
