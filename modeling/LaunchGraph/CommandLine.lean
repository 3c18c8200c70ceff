import LaunchGraph.Policy

/-!
# The command line

The options of a run.  An option that takes a value gets it after `=` or as the next argument.  In
the second form the value is looked at only when the next option is known, so that an unknown
argument is reported before a bad value in front of it.
-/

namespace LaunchGraph

/-- How much is logged. -/
inductive LogLevel where
  | error | warn | info | debug | trace
deriving DecidableEq, Repr

namespace LogLevel

def ofName? : String → Option LogLevel
  | "error" => some .error
  | "warn" => some .warn
  | "info" => some .info
  | "debug" => some .debug
  | "trace" => some .trace
  | _ => none

/-- The name used in reports. -/
def title : LogLevel → String
  | .error => "Error"
  | .warn => "Warn"
  | .info => "Info"
  | .debug => "Debug"
  | .trace => "Trace"

end LogLevel

/-- The choices for a run; each option that is given takes the place of its default. -/
structure Arguments where
  workload : Option String := none
  dependency : Option DependencyPolicy := none
  issue : Option IssuePolicy := none
  dot : Option String := none
  dryRun : Bool := false
  logLevel : Option LogLevel := none
deriving DecidableEq, Repr

/-- The path of the workload file. -/
def Arguments.workloadPath (a : Arguments) : String := a.workload.getD "Workload.toml"

/-- Why a command line does not ask for a run. -/
inductive UsageFault where
  | help
  | version
  | unknownArgument
  | invalidValue
  /-- An option is given twice. -/
  | conflict
  /-- A value for an option that takes none. -/
  | tooManyValues
deriving DecidableEq, Repr

namespace CommandLine

/-- The options that take a value. -/
inductive ValueOption where
  | workload | dependency | issue | dot | logLevel
deriving DecidableEq, Repr

def ValueOption.ofName? : String → Option ValueOption
  | "workload" => some .workload
  | "dependency-policy" => some .dependency
  | "issue-policy" => some .issue
  | "dot" => some .dot
  | "log-level" => some .logLevel
  | _ => none

/-- The options that stand alone. -/
inductive Flag where
  | dryRun | help | version
deriving DecidableEq, Repr

def Flag.ofName? : String → Option Flag
  | "dry-run" => some .dryRun
  | "help" => some .help
  | "version" => some .version
  | _ => none

/-- Whether an option has been given. -/
def ValueOption.isSet (a : Arguments) : ValueOption → Bool
  | .workload => a.workload.isSome
  | .dependency => a.dependency.isSome
  | .issue => a.issue.isSome
  | .dot => a.dot.isSome
  | .logLevel => a.logLevel.isSome

/-- A path, which is not empty. -/
def path? (s : String) : Option String := if s.isEmpty then none else some s

/-- The choices with the value of an option, if the value is allowed. -/
def ValueOption.set? (a : Arguments) (s : String) : ValueOption → Option Arguments
  | .workload => (path? s).map fun p => { a with workload := some p }
  | .dependency => (DependencyPolicy.ofName? s).map fun p => { a with dependency := some p }
  | .issue => (IssuePolicy.ofName? s).map fun p => { a with issue := some p }
  | .dot => (path? s).map fun p => { a with dot := some p }
  | .logLevel => (LogLevel.ofName? s).map fun l => { a with logLevel := some l }

/-- The choices with an option that is given with a value, or without one. -/
def ValueOption.apply (a : Arguments) (o : ValueOption) :
    Option String → Except UsageFault Arguments
  | none => .error .invalidValue
  | some s =>
      if o.isSet a then .error .conflict
      else
        match o.set? a s with
        | some a => .ok a
        | none => .error .invalidValue

/-- What has been read of a command line. -/
structure Draft where
  arguments : Arguments := {}
  /-- An option that has been named, and its value if that has come. -/
  pending : Option (ValueOption × Option String) := none

/-- The choices, with the option that has been named. -/
def Draft.settle (d : Draft) : Except UsageFault Arguments :=
  match d.pending with
  | none => .ok d.arguments
  | some (o, value) => o.apply d.arguments value

def Flag.apply (a : Arguments) : Flag → Except UsageFault Arguments
  | .dryRun => if a.dryRun then .error .conflict else .ok { a with dryRun := true }
  | .help => .error .help
  | .version => .error .version

/-- A name, and what stands after its first `=`. -/
def splitValue (cs : List Char) : String × Option String :=
  match cs.dropWhile (· != '=') with
  | [] => (String.ofList cs, none)
  | _ :: value => (String.ofList (cs.takeWhile (· != '=')), some (String.ofList value))

/-- An option with a long name. -/
def Draft.long (d : Draft) (cs : List Char) : Except UsageFault Draft :=
  let (name, value) := splitValue cs
  match ValueOption.ofName? name, Flag.ofName? name, value with
  | some o, _, none => do
      let a ← d.settle
      .ok { arguments := a, pending := some (o, none) }
  | some o, _, some s => do
      let a ← d.settle
      let a ← o.apply a (some s)
      .ok { arguments := a }
  | none, some _, some _ => .error .tooManyValues
  | none, some flag, none => do
      let a ← d.settle
      let a ← flag.apply a
      .ok { arguments := a }
  | none, none, _ => .error .unknownArgument

/-- An option with a short name. -/
def Draft.short (d : Draft) (c : Char) : Except UsageFault Draft :=
  match c with
  | 'h' => do
      let _ ← d.settle
      .error .help
  | 'V' => do
      let _ ← d.settle
      .error .version
  | _ => .error .unknownArgument

/-- A text that is no option: the value of the option in front of it. -/
def Draft.value (d : Draft) (s : String) : Except UsageFault Draft :=
  match d.pending with
  | some (o, none) => .ok { d with pending := some (o, some s) }
  | _ => .error .unknownArgument

/-- The next argument. -/
def Draft.next (d : Draft) (s : String) : Except UsageFault Draft :=
  match s.toList with
  | '-' :: '-' :: cs => d.long cs
  | '-' :: c :: _ => d.short c
  | _ => d.value s

/-- Reads the arguments from a draft on.  After `--` there may be none. -/
def readFrom (d : Draft) : List String → Except UsageFault Arguments
  | [] => d.settle
  | s :: rest =>
      if s = "--" then if rest.isEmpty then d.settle else .error .unknownArgument
      else do
        let d ← d.next s
        readFrom d rest

/-- The choices of a command line. -/
def read (argv : List String) : Except UsageFault Arguments := readFrom {} argv

end CommandLine

end LaunchGraph
