import LaunchGraph.Device.Call
import LaunchGraph.Device.Machine

/-!
# Devices

The device that a scheduler talks to: the simulated machine, behind a log of the calls that reach
it, behind a plan of faults.  A call that meets a planned fault is refused before it is logged; a
call that the machine refuses is logged nevertheless.
-/

namespace LaunchGraph

/-- After `skip` more calls, the next `times` calls fail. -/
structure FaultPlan where
  skip : Nat := 0
  times : Nat := 1
deriving DecidableEq, Repr

/-- A device. -/
structure Device where
  machine : Machine := {}
  /-- The calls that reached the machine, oldest first. -/
  calls : List Call := []
  /-- The faults that are planned, at most one plan for each method. -/
  faults : List (Method × FaultPlan) := []
deriving DecidableEq

namespace Device

/-- The plan for a method. -/
def fault? (d : Device) (m : Method) : Option FaultPlan :=
  (d.faults.find? fun f => f.1 = m).map Prod.snd

/-- The device with the plan for a method replaced. -/
def setFault (d : Device) (m : Method) (plan : FaultPlan) : Device :=
  { d with faults := (m, plan) :: d.faults.filter fun f => f.1 ≠ m }

/-- Lets a call pass, or fails it as planned. -/
def checkFault (m : Method) : Action Device Unit := fun d =>
  match d.fault? m with
  | some ⟨skip + 1, times⟩ => (.ok (), d.setFault m ⟨skip, times⟩)
  | some ⟨0, times + 1⟩ => (.error (.error (.device (.injected m))), d.setFault m ⟨0, times⟩)
  | some ⟨0, 0⟩ | none => (.ok (), d)

/-- A step of the machine. -/
def onMachine {α : Type} (x : Action Machine α) : Action Device α :=
  Action.zoom Device.machine (fun m d => { d with machine := m }) x

/-- A call: it passes the plan of faults, is logged and answered. -/
def call {α : Type} (method : Method) (entry : Call) (x : Action Machine α) : Action Device α := do
  checkFault method
  Action.modify fun d => { d with calls := d.calls ++ [entry] }
  onMachine x

def createStream : Action Device StreamId :=
  call .createStream .createStream Machine.createStream

def destroyStream (s : StreamId) : Action Device Unit :=
  call .destroyStream (.destroyStream s) (Machine.destroyStream s)

def createEvent : Action Device EventId :=
  call .createEvent .createEvent Machine.createEvent

def destroyEvent (e : EventId) : Action Device Unit :=
  call .destroyEvent (.destroyEvent e) (Machine.destroyEvent e)

def recordEvent (e : EventId) (s : StreamId) : Action Device Unit :=
  call .recordEvent (.recordEvent e s) (Machine.recordEvent e s)

def waitEvent (s : StreamId) (e : EventId) : Action Device Unit :=
  call .waitEvent (.waitEvent s e) (Machine.waitEvent s e)

def issue (element : Element) (s : StreamId) : Action Device Unit :=
  call .issue (.issue element.label s) (Machine.issue element s)

def syncStream (s : StreamId) : Action Device Unit :=
  call .syncStream (.syncStream s) (Machine.syncStream s)

def syncDevice : Action Device Unit := call .syncDevice .syncDevice Machine.syncDevice

def allocate (bytes : Nat) : Action Device BufferId :=
  call .allocate (.allocate bytes) Machine.allocate

def free (b : BufferId) : Action Device Unit := call .free (.free b) (Machine.free b)

/-- The status of an event; the question is not logged. -/
def eventStatus (e : EventId) : Action Device EventStatus := do
  checkFault .eventStatus
  onMachine (Machine.eventStatus e)

/-! ### Driving a device by hand -/

/-- What can be asked of a device. -/
inductive Command where
  /-- Run at most one operation of every stream. -/
  | step
  | runUntilIdle
  | rejectLaunches (label : String)
  | failExecutions (label : String)
  | limitStreams (limit : Nat)
  | isAllocated (buffer : BufferId)
  | planFault (method : Method) (plan : FaultPlan)
  | createStream
  | destroyStream (stream : StreamId)
  | createEvent
  | destroyEvent (event : EventId)
  | recordEvent (event : EventId) (stream : StreamId)
  | waitEvent (stream : StreamId) (event : EventId)
  | issue (element : Element) (stream : StreamId)
  | eventStatus (event : EventId)
  | syncStream (stream : StreamId)
  | syncDevice
  | allocate (bytes : Nat)
  | free (buffer : BufferId)
deriving DecidableEq

/-- What a device answers. -/
inductive Reply where
  | done
  | count (n : Nat)
  | flag (b : Bool)
  | stream (id : StreamId)
  | event (id : EventId)
  | buffer (id : BufferId)
  | status (s : EventStatus)
deriving DecidableEq

/-- Carries out a command. The machine is driven directly; calls go the way of every call. -/
def perform : Command → Action Device Reply
  | .step => fun d =>
      let (n, m) := d.machine.step
      (.ok (.count n), { d with machine := m })
  | .runUntilIdle => do
      onMachine Machine.syncDevice
      pure .done
  | .rejectLaunches label => do
      Action.modify fun d => { d with machine := d.machine.rejectLaunches label }
      pure .done
  | .failExecutions label => do
      Action.modify fun d => { d with machine := d.machine.failExecutions label }
      pure .done
  | .limitStreams limit => do
      Action.modify fun d => { d with machine := d.machine.limitStreams limit }
      pure .done
  | .isAllocated b => do
      let allocated ← Action.gets fun d => d.machine.buffers.contains b
      pure (.flag allocated)
  | .planFault method plan => do
      Action.modify fun d => d.setFault method plan
      pure .done
  | .createStream => do
      let s ← createStream
      pure (.stream s)
  | .destroyStream s => do
      destroyStream s
      pure .done
  | .createEvent => do
      let e ← createEvent
      pure (.event e)
  | .destroyEvent e => do
      destroyEvent e
      pure .done
  | .recordEvent e s => do
      recordEvent e s
      pure .done
  | .waitEvent s e => do
      waitEvent s e
      pure .done
  | .issue element s => do
      issue element s
      pure .done
  | .eventStatus e => do
      let status ← eventStatus e
      pure (.status status)
  | .syncStream s => do
      syncStream s
      pure .done
  | .syncDevice => do
      syncDevice
      pure .done
  | .allocate bytes => do
      let b ← allocate bytes
      pure (.buffer b)
  | .free b => do
      free b
      pure .done

end Device

end LaunchGraph
