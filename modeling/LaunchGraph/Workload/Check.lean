import LaunchGraph.Workload
import LaunchGraph.Workload.File
import LaunchGraph.Toml.Printer

/-!
# Checking workloads

A workload file is accepted if a run of it meets no error: all names it uses are declared, every
array has a size, and every launch fits the signature of its kernel.  The first fault counts, in
the order of the file: launches at all, the choices for the context, arrays by name, kernels by
name, launches in order.
-/

namespace LaunchGraph

namespace WorkloadFile

/-- The choices for the context leave room for work. -/
def checkOptions (o : ContextOptions) : Except Error Unit :=
  if o.batchSize = 0 then .error (.config .emptyBatch)
  else if o.maxStreams = some 0 then .error (.config .emptyPool)
  else .ok ()

def checkArray (name : String) (a : ArrayEntry) : Except Error ArraySpec :=
  match ElementType.read a.typeName with
  | .error unknown => .error (.config (.declaredType name unknown))
  | .ok type =>
      if type = .void then .error (.config (.declaredVoid name))
      else if type.size * a.length < addressSpace then .ok ⟨type, a.length⟩
      else .error (.config (.declaredTooLarge name a.length type))

def checkKernel (signature : String) : Except Error KernelSpec := do
  let parameters ← Signature.parse signature
  .ok { signature, parameters }

/-- An argument of the launch at `index`: an array that is declared, or a number. -/
def checkArgument (arrays : Table String ArraySpec) (index : Nat) :
    Toml.Value → Except Error StepArgument
  | .string name =>
      if arrays.contains name then .ok (.array name)
      else .error (.config (.unknownArray index name))
  | .int i => .ok (.int i)
  | .float x => .ok (.float x)
  | .bool b => .ok (.bool b)
  | v => .error (.config (.unsupportedArgument index v.text))

/-- The values of arguments at the positions from `slot` on, with the position of an array in the
place of its buffer. -/
def standIns (arrays : Table String ArraySpec) (index : Nat) :
    Nat → List StepArgument → Except Error (List CallValue)
  | _, [] => .ok []
  | slot, a :: rest => do
      let v ← a.resolve fun name =>
        match arrays.get? name with
        | some spec => .ok (.array slot spec.type)
        | none => .error (.config (.unknownArray index name))
      let vs ← standIns arrays index (slot + 1) rest
      .ok (v :: vs)

/-- A launch at `index` of the kernel `name`. -/
def checkLaunch (arrays : Table String ArraySpec) (kernels : Table String KernelSpec)
    (index : Nat) (name : String) (entry : LaunchEntry) : Except Error Step :=
  match kernels.get? name with
  | none => .error (.unknownKernel name)
  | some spec =>
      if entry.grid = 0 ∨ entry.block = 0 then .error (.config (.emptyShape index))
      else do
        let args ← entry.args.mapM (checkArgument arrays index)
        let values ← standIns arrays index 0 args
        let kernel ← Kernel.new 0 name spec.signature
        let _ ← kernel.bind values
        .ok (.launch name args { grid := entry.grid, block := entry.block })

/-- An access at `index` to the array `name`. -/
def checkAccess (arrays : Table String ArraySpec) (index : Nat) (name : String)
    (entry : LaunchEntry) : Except Error Step :=
  if !entry.args.isEmpty then .error (.config (.accessWithArguments index name))
  else if arrays.contains name then .ok (.access name entry.write)
  else .error (.config (.unknownArray index name))

def checkStep (arrays : Table String ArraySpec) (kernels : Table String KernelSpec)
    (index : Nat) (entry : LaunchEntry) : Except Error Step :=
  match entry.kernel, entry.access with
  | some kernel, none => checkLaunch arrays kernels index kernel entry
  | none, some array => checkAccess arrays index array entry
  | some _, some _ => .error (.config (.kernelAndAccess index))
  | none, none => .error (.config (.neitherKernelNorAccess index))

/-- The steps of launches, which are counted from `index`. -/
def checkSteps (arrays : Table String ArraySpec) (kernels : Table String KernelSpec) :
    Nat → List LaunchEntry → Except Error (List Step)
  | _, [] => .ok []
  | index, entry :: rest => do
      let step ← checkStep arrays kernels index entry
      let steps ← checkSteps arrays kernels (index + 1) rest
      .ok (step :: steps)

/-- The workload of a file. -/
def check (file : WorkloadFile) : Except Error Workload := do
  if file.launches.isEmpty then .error (.config .noLaunches)
  checkOptions file.options
  let arrays ← file.arrays.traverse checkArray
  let kernels ← file.kernels.traverse fun _ => checkKernel
  let steps ← checkSteps arrays kernels 0 file.launches
  .ok { options := file.options, arrays, kernels, steps }

end WorkloadFile

end LaunchGraph
