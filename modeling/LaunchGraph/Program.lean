import LaunchGraph.CommandLine
import LaunchGraph.Dag.Dot
import LaunchGraph.Workload.Check
import LaunchGraph.Workload.Report

/-!
# The program

One run: a workload file is read and checked, and then either listed or run; the graph of the run
is written to a file if that is asked for, and at the end the report is printed.  Files and output
are reached through a `Host`, so that the same run can be had on a real system and on a model.
-/

namespace LaunchGraph

/-- How a run reaches files and output. -/
structure Host (m : Type → Type) where
  /-- The text of a file, if it can be read. -/
  load : String → m (Option String)
  /-- Writes a file, and says whether that could be done. -/
  save : String → String → m Bool
  print : String → m Unit

/-- Why a workload file is not accepted. -/
inductive LoadFault where
  | unreadable
  /-- It is not a workload file. -/
  | malformed
  | invalid (e : Error)
deriving DecidableEq, Repr

/-- Why a run did not get to its end. -/
inductive RunFault where
  | load (path : String) (fault : LoadFault)
  | writeDot (path : String)
  | halt (h : Halt)
deriving DecidableEq, Repr

/-- What was being done when a run ended early. -/
def RunFault.context : RunFault → String
  | .load path _ => "loading workload " ++ path
  | .writeDot path => "writing DOT to " ++ path
  | .halt (.error e) => e.message
  | .halt (.breach _) => Error.sessionClosed.message

namespace Program

/-- The workload of a file, as far as it could be read. -/
def load (text : Option String) : Except LoadFault Workload :=
  match text with
  | none => .error .unreadable
  | some text =>
      match WorkloadFile.read? text with
      | none => .error .malformed
      | some file =>
          match file.check with
          | .ok w => .ok w
          | .error e => .error (.invalid e)

/-- The workload with the policies that the command line chooses. -/
def choose (a : Arguments) (w : Workload) : Workload :=
  { w with options := { w.options with
      dependency := a.dependency.getD w.options.dependency
      issue := a.issue.getD w.options.issue } }

/-- Writes the graph of a run, if that is asked for. -/
def writeDot {m : Type → Type} [Monad m] (host : Host m) (a : Arguments) (o : Outcome) :
    m (Except RunFault Unit) :=
  match a.dot with
  | none => pure (.ok ())
  | some path => do
      if ← host.save path o.context.dag.toDot then pure (.ok ())
      else pure (.error (.writeDot path))

/-- One run of the program. -/
def run {m : Type → Type} [Monad m] (host : Host m) (a : Arguments) : m (Except RunFault Unit) := do
  match load (← host.load a.workloadPath) with
  | .error fault => pure (.error (.load a.workloadPath fault))
  | .ok w =>
      let w := choose a w
      if a.dryRun then
        host.print w.listing
        pure (.ok ())
      else
        match w.outcome with
        | .error h => pure (.error (.halt h))
        | .ok o =>
            match ← writeDot host a o with
            | .error fault => pure (.error fault)
            | .ok () =>
                host.print (w.report o)
                pure (.ok ())

end Program

end LaunchGraph
