import LaunchGraph.Workload.Replay

/-!
# Reports

The texts about a workload: what it says, and what became of its run.
-/

namespace LaunchGraph.Workload

/-- Lines, each with its end. -/
def linesText (lines : List String) : String := String.join (lines.map (· ++ "\n"))

/-- What became of the run of a workload. -/
def report (w : Workload) (o : Outcome) : String :=
  linesText ["streamdag replay",
      s!"  dependency_policy = {w.options.dependency.title}, " ++
        s!"issue_policy = {w.options.issue.title}",
      ""] ++
    linesText ((w.steps.zip o.vertices).zipIdx.map fun ((step, v), index) =>
      "  step " ++ padLeft 3 (toString index) ++ " -> vertex " ++ padRight 3 (toString v) ++ " "
        ++ step.text) ++
    "\n" ++ o.summary.text ++
    linesText [s!"streams used: {o.summary.streamsUsed}",
      s!"executed: {o.context.device.machine.executed.length}"]

/-- What a workload says. -/
def listing (w : Workload) : String :=
  linesText (["streamdag dry-run",
      s!"  config.dependency_policy = {w.options.dependency.title}",
      s!"  config.issue_policy = {w.options.issue.title}",
      s!"  config.batch_size = {w.options.batchSize}"] ++
    w.options.maxStreams.toList.map (fun n => s!"  config.max_streams = {n}") ++
    ["", s!"arrays ({w.arrays.size}):"] ++
    w.arrays.entries.map (fun (name, a) => s!"  - {name}: {a.type.name} x {a.length}") ++
    [s!"kernels ({w.kernels.size}):"] ++
    w.kernels.entries.map (fun (name, k) => s!"  - {name}({k.signature})") ++
    [s!"steps ({w.steps.length}):"] ++
    w.steps.zipIdx.map fun (step, index) =>
      "  " ++ padLeft 3 (toString index) ++ ": " ++ step.text)

end LaunchGraph.Workload
