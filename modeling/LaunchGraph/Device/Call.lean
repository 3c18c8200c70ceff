import LaunchGraph.Ident

/-!
# Device calls

A device keeps a log of the calls that reached it.  Only asking for the status of an event leaves
no trace.
-/

namespace LaunchGraph

/-- A call that reached the device. -/
inductive Call where
  | createStream
  | destroyStream (stream : StreamId)
  | createEvent
  | destroyEvent (event : EventId)
  | recordEvent (event : EventId) (stream : StreamId)
  | waitEvent (stream : StreamId) (event : EventId)
  | issue (label : String) (stream : StreamId)
  | syncStream (stream : StreamId)
  | syncDevice
  | allocate (bytes : Nat)
  | free (buffer : BufferId)
deriving DecidableEq, Repr

namespace Call

def text : Call → String
  | .createStream => "create_stream"
  | .destroyStream s => s!"destroy_stream {s}"
  | .createEvent => "create_event"
  | .destroyEvent e => s!"destroy_event {e}"
  | .recordEvent e s => s!"record_event {e} on {s}"
  | .waitEvent s e => s!"wait_event {e} on {s}"
  | .issue label s => s!"issue {label} on {s}"
  | .syncStream s => s!"sync_stream {s}"
  | .syncDevice => "device_sync"
  | .allocate bytes => s!"allocate {bytes}"
  | .free b => s!"free {b}"

/-- The label and the stream of a launch. -/
def issued? : Call → Option (String × StreamId)
  | .issue label s => some (label, s)
  | _ => none

def isWait : Call → Bool
  | .waitEvent .. => true
  | _ => false

/-- Puts the release of event `e` in front of a log, behind the releases of lower events that the
log begins with. -/
def consRelease (e : EventId) : List Call → List Call
  | .destroyEvent d :: rest =>
      if d < e then .destroyEvent d :: consRelease e rest
      else .destroyEvent e :: .destroyEvent d :: rest
  | log => .destroyEvent e :: log

/-- A log with the events of each run of releases in increasing order: the order in which events
are released together means nothing. -/
def sortReleases : List Call → List Call
  | [] => []
  | .destroyEvent e :: rest => consRelease e (sortReleases rest)
  | call :: rest => call :: sortReleases rest

end Call

end LaunchGraph
