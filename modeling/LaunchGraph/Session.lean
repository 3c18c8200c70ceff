import LaunchGraph.Context.Command

/-!
# Sessions

A session owns a context and serves requests one after the other until it is shut down.  When it
ends it waits for the work that is under way, gives back the streams and events of the context,
and hands the context back.  A breach ends a session at once: the context is given up, without
waiting for its work.
-/

namespace LaunchGraph

/-- Whether a session still serves requests. -/
inductive SessionPhase where
  | serving
  | ended
  /-- Ended by a breach. -/
  | broken
deriving DecidableEq, Repr

/-- A session with its context. -/
structure Session where
  context : Context
  phase : SessionPhase := .serving
deriving DecidableEq

namespace Session

/-- Has the session carry out a step of its context. -/
def request {α : Type} (x : Action Context α) : Action Session α := fun s =>
  match s.phase with
  | .serving =>
      match x.run s.context with
      | (.error (.breach _), c) => (.error (.error .sessionClosed), ⟨c.drop, .broken⟩)
      | (r, c) => (r, { s with context := c })
  | _ => (.error (.error .sessionClosed), s)

/-- Serves a command. -/
def serve (command : Context.Command) : Action Session Context.Reply :=
  request (Context.perform command)

/-- Ends a session that is serving; an error while its context is cleaned up is ignored. -/
def finish (s : Session) : Session :=
  match s.phase with
  | .serving => ⟨(Context.cleanup.run s.context).2, .ended⟩
  | _ => s

/-- Ends a session at the request of a caller. -/
def shutdown : Action Session Unit := fun s =>
  match s.phase with
  | .serving => (.ok (), s.finish)
  | _ => (.error (.error .sessionClosed), s)

/-- A call to the device of a session, past the session. -/
def onDevice {α : Type} (x : Action Device α) : Action Session α :=
  Action.zoom (fun s => s.context.device)
    (fun d s => { s with context := { s.context with device := d } }) x

end Session

end LaunchGraph
