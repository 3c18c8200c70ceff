import LaunchGraph.Program

/-!
# The executable

Reads the command line, runs the program on the real file system and reports faults.
-/

namespace LaunchGraph

/-- Files and output of the system. -/
def systemHost : Host IO where
  load path := do
    try
      let text ← IO.FS.readFile path
      pure (some text)
    catch _ => pure none
  save path text := do
    try
      IO.FS.writeFile path text
      pure true
    catch _ => pure false
  print text := do
    IO.print text

/-- How the program is used. -/
def usage : String :=
  "Replay an accelerator workload through the dependency scheduler.\n\n" ++
  "Usage: streamdag [OPTIONS]\n\n" ++
  "Options:\n" ++
  "      --workload <PATH>             Path to the workload file (TOML) " ++
    "[default: Workload.toml]\n" ++
  "      --dependency-policy <POLICY>  with-const or conservative\n" ++
  "      --issue-policy <POLICY>       eager or deferred\n" ++
  "      --dot <PATH>                  Write the resulting graph in Graphviz DOT format\n" ++
  "      --dry-run                     Check and print the workload only\n" ++
  "      --log-level <LEVEL>           error, warn, info, debug or trace\n" ++
  "  -h, --help                        Print help\n" ++
  "  -V, --version                     Print version\n"

/-- What is wrong with a command line. -/
def UsageFault.message : UsageFault → String
  | .help | .version => ""
  | .unknownArgument => "unexpected argument"
  | .invalidValue => "invalid value for an option"
  | .conflict => "an option cannot be used multiple times"
  | .tooManyValues => "unexpected value for an option"

/-- The cause of a fault, if it says more than the fault itself. -/
def RunFault.cause : RunFault → Option String
  | .load _ .unreadable => some "the file cannot be read"
  | .load _ .malformed => some "the file is not a workload in TOML"
  | .load _ (.invalid e) => some e.message
  | .writeDot _ => some "the file cannot be written"
  | .halt _ => none

end LaunchGraph

open LaunchGraph

def main (argv : List String) : IO UInt32 := do
  match CommandLine.read argv with
  | .error .help =>
      IO.print usage
      pure 0
  | .error .version =>
      IO.println "streamdag 0.1.0"
      pure 0
  | .error fault =>
      IO.eprintln ("error: " ++ fault.message)
      pure 2
  | .ok arguments =>
      match ← Program.run systemHost arguments with
      | .ok () => pure 0
      | .error fault =>
          IO.eprintln ("Error: " ++ fault.context)
          if let some cause := fault.cause then
            IO.eprintln ("Caused by: " ++ cause)
          pure 1
