import LaunchGraph.Context

/-!
# Commands

The operations of a context as data, with one function that carries them out.  A run of a context
is a list of commands, among them commands to the device itself.
-/

namespace LaunchGraph.Context

/-- What can be asked of a context. -/
inductive Command where
  | allocate (type : ElementType) (length : Nat)
  | registerArray (array : DeviceArray)
  | declare (name signature : String)
  | registerKernel (kernel : Kernel)
  | launch (kernel : KernelId) (config : LaunchConfig) (values : List CallValue)
  | access (array : DeviceArray) (write : Bool)
  | register (element : Element)
  | wait (vertex : VertexId)
  | state (vertex : VertexId)
  | flush
  | synchronize
  | cleanup
  | isActive
  | hasPending
  | summary
  | device (command : Device.Command)
deriving DecidableEq

/-- What a context answers. -/
inductive Reply where
  | done
  | array (array : DeviceArray)
  | kernel (id : KernelId)
  | vertex (id : VertexId)
  | state (state : Lifecycle)
  | flag (b : Bool)
  | summary (summary : Summary)
  | device (reply : Device.Reply)
deriving DecidableEq

/-- Carries out a command. -/
def perform : Command → Action Context Reply
  | .allocate type length => do
      let a ← allocateArray type length
      pure (.array a)
  | .registerArray a => do
      Action.modify fun c => c.registerArray a
      pure .done
  | .declare name signature => do
      let id ← declareKernel name signature
      pure (.kernel id)
  | .registerKernel k => do
      Action.modify fun c => c.registerKernel k
      pure .done
  | .launch id config values => do
      let v ← launch id config values
      pure (.vertex v)
  | .access a write => do
      let v ← accessArray a write
      pure (.vertex v)
  | .register e => do
      let v ← register e
      pure (.vertex v)
  | .wait v => do
      wait v
      pure .done
  | .state v => do
      let s ← state v
      pure (.state s)
  | .flush => do
      flush
      pure .done
  | .synchronize => do
      synchronize
      pure .done
  | .cleanup => do
      cleanup
      pure .done
  | .isActive => do
      let b ← isActive
      pure (.flag b)
  | .hasPending => do
      let b ← Action.gets hasPending
      pure (.flag b)
  | .summary => do
      let s ← Action.gets summary
      pure (.summary s)
  | .device command => do
      let r ← onDevice (Device.perform command)
      pure (.device r)

end LaunchGraph.Context
