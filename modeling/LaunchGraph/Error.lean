import LaunchGraph.Element

/-!
# Errors

Every way an operation can be refused, as a cause; the wording is in `Error.message` and the
functions it uses.
-/

namespace LaunchGraph

/-- What kind of value a caller supplied for a parameter. -/
inductive ValueKind where
  | array (type : ElementType)
  | integer
  | floating
  | bool
deriving DecidableEq, Repr

def ValueKind.describe : ValueKind → String
  | .array t => "array of " ++ t.name
  | .integer => "integer"
  | .floating => "floating point"
  | .bool => "bool"

/-- Why a kernel signature is refused. -/
inductive SignatureFault where
  | unparsable (parameter : String)
  | unknownType (name : String)
  | bareVoid
deriving DecidableEq, Repr

def SignatureFault.message : SignatureFault → String
  | .unparsable p => s!"cannot parse parameter '{p}'"
  | .unknownType name => ElementType.unknownMessage name
  | .bareVoid => "void is only valid behind a pointer"

/-- The calls a device answers. -/
inductive Method where
  | createStream | destroyStream | createEvent | destroyEvent | recordEvent | waitEvent | issue
  | eventStatus | syncStream | syncDevice | allocate | free
deriving DecidableEq, Repr

def Method.name : Method → String
  | .createStream => "create_stream"
  | .destroyStream => "destroy_stream"
  | .createEvent => "create_event"
  | .destroyEvent => "destroy_event"
  | .recordEvent => "record_event"
  | .waitEvent => "stream_wait_event"
  | .issue => "issue"
  | .eventStatus => "event_status"
  | .syncStream => "synchronize_stream"
  | .syncDevice => "device_synchronize"
  | .allocate => "allocate"
  | .free => "free"

/-- What the device, or the way it was used, got wrong. -/
inductive DeviceFault where
  | outOfStreams (alive : Nat)
  | recordOfUnknown (event : EventId)
  | statusOfUnknown (event : EventId)
  | rejected (label : String)
  /-- Work is left on the device that nothing can unblock. -/
  | stalled (pending : Nat)
  | streamStalled (stream : StreamId) (pending : Nat)
  /-- There is no stream to share. -/
  | emptyPool
  /-- A planned fault of a call. -/
  | injected (method : Method)
  | unsettled (vertex : VertexId) (state : Lifecycle)
deriving DecidableEq, Repr

def DeviceFault.message : DeviceFault → String
  | .outOfStreams n => s!"out of streams ({n} alive)"
  | .recordOfUnknown e => "record of unknown " ++ e.text
  | .statusOfUnknown e => "status of unknown " ++ e.text
  | .rejected label => s!"launch of '{label}' rejected by device"
  | .stalled n => s!"simulated device stalled with {n} pending operations"
  | .streamStalled s n => s.text ++ s!" stalled with {n} pending operations"
  | .emptyPool => "stream pool is empty"
  | .injected m => "injected " ++ m.name
  | .unsettled v state => s!"vertex {v} still {state.name} after synchronizing its stream"

/-- Why a declaration of a workload, or an array, is refused. Steps are counted from zero. -/
inductive ConfigFault where
  | arrayOfVoid
  | arrayTooLarge (length : Nat) (type : ElementType)
  | noLaunches
  | emptyBatch
  | emptyPool
  | declaredType (array : String) (typeName : String)
  | declaredVoid (array : String)
  | declaredTooLarge (array : String) (length : Nat) (type : ElementType)
  | kernelAndAccess (step : Nat)
  | neitherKernelNorAccess (step : Nat)
  | accessWithArguments (step : Nat) (array : String)
  | unknownArray (step : Nat) (array : String)
  | emptyShape (step : Nat)
  | unsupportedArgument (step : Nat) (text : String)
deriving DecidableEq, Repr

def ConfigFault.message : ConfigFault → String
  | .arrayOfVoid => "device arrays need a concrete element type"
  | .arrayTooLarge n t => s!"array of {n} x {t.name} does not fit in the address space"
  | .noLaunches => "workload must contain at least one [[launch]] entry"
  | .emptyBatch => "[config].batch_size must be >= 1 (got 0)"
  | .emptyPool => "[config].max_streams must be >= 1 (got 0)"
  | .declaredType a name => s!"array '{a}': " ++ ElementType.unknownMessage name
  | .declaredVoid a => s!"array '{a}' needs a concrete element type, not void"
  | .declaredTooLarge a n t => s!"array '{a}': {n} x {t.name} is too large"
  | .kernelAndAccess i => s!"launch #{i}: set either `kernel` or `access`, not both"
  | .neitherKernelNorAccess i => s!"launch #{i}: missing `kernel` (or `access`)"
  | .accessWithArguments i a => s!"launch #{i}: host access to '{a}' takes no args"
  | .unknownArray i a => s!"launch #{i}: unknown array '{a}'"
  | .emptyShape i => s!"launch #{i}: grid and block must be >= 1"
  | .unsupportedArgument i text => s!"launch #{i}: unsupported argument {text}"

/-- Why an operation is refused. -/
inductive Error where
  | config (fault : ConfigFault)
  | arity (kernel : String) (expected got : Nat)
  | argumentType (kernel : String) (index : Nat) (expected : ElementType) (got : ValueKind)
  | invalidSignature (signature : String) (fault : SignatureFault)
  | unknownStream (stream : StreamId)
  | unknownKernel (name : String)
  | unboundVertex (vertex : VertexId)
  | invalidView (offset length arrayLength : Nat)
  | invalidBuffer (buffer : BufferId)
  | launchFailed (vertex : VertexId) (reason : String)
  | parentFailed (vertex parent : VertexId)
  | missingParentEvent (vertex parent : VertexId)
  | device (fault : DeviceFault)
  | sessionClosed
  /-- A step of a workload uses an array that was not allocated. -/
  | notAllocated (array : String)
  /-- A step of a workload launches a kernel that was not declared. -/
  | notDeclared (kernel : String)
deriving DecidableEq, Repr

def Error.message : Error → String
  | .config fault => "Configuration error: " ++ fault.message
  | .arity kernel expected got => s!"kernel '{kernel}' expects {expected} arguments, got {got}"
  | .argumentType kernel index expected got =>
      s!"kernel '{kernel}' argument {index}: expected {expected.name}, got {got.describe}"
  | .invalidSignature signature fault =>
      s!"invalid kernel signature '{signature}': {fault.message}"
  | .unknownStream s => "unknown stream " ++ s.text
  | .unknownKernel name => s!"unknown kernel '{name}'"
  | .unboundVertex v => s!"vertex {v} has no stream"
  | .invalidView offset length arrayLength =>
      s!"view [{offset}, +{length}) is out of bounds for an array of {arrayLength}"
  | .invalidBuffer b => s!"invalid buffer {b}"
  | .launchFailed v reason => s!"launch of vertex {v} failed: {reason}"
  | .parentFailed v p => s!"vertex {v} depends on failed vertex {p}"
  | .missingParentEvent v p => s!"vertex {v} waits on vertex {p}, which has no completion event"
  | .device fault => "device error: " ++ fault.message
  | .sessionClosed => "session is closed"
  | .notAllocated array => s!"array '{array}' was not allocated"
  | .notDeclared kernel => s!"kernel '{kernel}' was not declared"

end LaunchGraph
