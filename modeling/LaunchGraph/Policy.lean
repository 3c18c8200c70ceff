import LaunchGraph.Argument

/-!
# Policies

A dependency policy answers two questions about an argument of an earlier computation and one of
a later computation: does the later have to wait for the earlier, and if so, does the later take
its place for the computations to come?  Only the buffers and the way they are used count.

An issue policy says when work that has been scheduled is handed to the device.
-/

namespace LaunchGraph

/-- Which accesses to a shared buffer order two computations. -/
inductive DependencyPolicy where
  /-- Two reads are free of each other; every other pair of accesses is ordered. -/
  | withConst
  /-- Every pair of accesses is ordered. -/
  | conservative
deriving DecidableEq, Repr, Inhabited

namespace DependencyPolicy

/-- The later argument has to wait for the earlier one. -/
def conflicts (p : DependencyPolicy) (earlier later : Argument) : Bool :=
  match p with
  | .withConst => earlier.aliases later && !(earlier.isConst && later.isConst)
  | .conservative => earlier.aliases later

/-- A conflicting later argument takes the place of the earlier one. A read does not take the
place of a write, since the next write still has to wait for that write. -/
def supersedes (p : DependencyPolicy) (_earlier later : Argument) : Bool :=
  match p with
  | .withConst => !later.isConst
  | .conservative => true

/-- The name used in workloads. -/
def name : DependencyPolicy → String
  | .withConst => "with-const"
  | .conservative => "conservative"

/-- The name used in reports. -/
def title : DependencyPolicy → String
  | .withConst => "WithConst"
  | .conservative => "Conservative"

/-- The policy with exactly this name. -/
def ofName? : String → Option DependencyPolicy
  | "with-const" => some .withConst
  | "conservative" => some .conservative
  | _ => none

/-- The policy a text names, without regard to letter case and blanks around it; otherwise the
name that is unknown, in lower case. -/
def read (s : String) : Except String DependencyPolicy :=
  let name := Text.lower (Text.trim s)
  match if name = "with_const" then some .withConst else ofName? name with
  | some p => .ok p
  | none => .error name

/-- How an unknown policy is reported. -/
def unknownMessage (name : String) : String :=
  s!"invalid dependency_policy: {name} (expected \"with-const\" or \"conservative\")"

end DependencyPolicy

/-- When scheduled work is handed to the device. -/
inductive IssuePolicy where
  /-- At once. -/
  | eager
  /-- In batches, or when the host blocks. -/
  | deferred
deriving DecidableEq, Repr, Inhabited

namespace IssuePolicy

/-- The name used in workloads. -/
def name : IssuePolicy → String
  | .eager => "eager"
  | .deferred => "deferred"

/-- The name used in reports. -/
def title : IssuePolicy → String
  | .eager => "Eager"
  | .deferred => "Deferred"

/-- The policy with exactly this name. -/
def ofName? : String → Option IssuePolicy
  | "eager" => some .eager
  | "deferred" => some .deferred
  | _ => none

/-- The policy a text names, without regard to letter case and blanks around it; otherwise the
name that is unknown, in lower case. -/
def read (s : String) : Except String IssuePolicy :=
  let name := Text.lower (Text.trim s)
  match ofName? name with
  | some p => .ok p
  | none => .error name

/-- How an unknown policy is reported. -/
def unknownMessage (name : String) : String :=
  s!"invalid issue_policy: {name} (expected \"eager\" or \"deferred\")"

end IssuePolicy

end LaunchGraph
