import LaunchGraph.Context
import LaunchGraph.Toml.Document

/-!
# Workload files

What a workload file says, before it is checked: the choices for the context, the arrays and the
kernels by name, and the launches in order.  A file is a TOML document; `WorkloadFile.read?` reads
it.

The sections `config`, `array`, `kernel` and `launch` may be left out, and keys that a section does
not know are passed over, if no number under them is bad.  A section may also be written as
an array of its values in the order of its keys; what follows them is not looked at.
-/

namespace LaunchGraph

/-- An array as it is declared. -/
structure ArrayEntry where
  typeName : String
  length : Nat
deriving DecidableEq, Repr

/-- A launch of a kernel, or an access of the host to an array. -/
structure LaunchEntry where
  kernel : Option String := none
  args : List Toml.Value := []
  grid : Nat := 1
  block : Nat := 1
  access : Option String := none
  write : Bool := false
deriving Repr

/-- What a workload file says. -/
structure WorkloadFile where
  options : ContextOptions := {}
  arrays : Table String ArrayEntry := .empty
  /-- The signatures of the kernels. -/
  kernels : Table String String := .empty
  launches : List LaunchEntry := []

namespace WorkloadFile

/-! ### Single values -/

def string? : Toml.Value → Option String
  | .string s => some s
  | _ => none

def bool? : Toml.Value → Option Bool
  | .bool b => some b
  | _ => none

/-- A natural number below a bound. -/
def natBelow? (bound : Nat) : Toml.Value → Option Nat
  | .int i => if 0 ≤ i ∧ i < bound then some i.toNat else none
  | _ => none

/-- A length or a count, of 64 bits. -/
def size? : Toml.Value → Option Nat := natBelow? 0x10000000000000000

/-- A dimension of a launch, of 32 bits. -/
def dimension? : Toml.Value → Option Nat := natBelow? 0x100000000

/-- A choice by its name, which may also be the only key of a table, with nothing in it. -/
def choice? {α : Type} (ofName? : String → Option α) : Toml.Value → Option α
  | .string s => ofName? s
  | .table [(k, .table [])] | .table [(k, .array [])] => ofName? k
  | _ => none

/-! ### Arguments -/

/-- The key that is reserved for the text of a date-time. -/
def datetimeKey : String := "$__toml_private_datetime"

/-- The value of the reserved key, if it comes first. -/
def reserved? : List (String × Toml.Value) → Option Toml.Value
  | (k, v) :: _ => if k = datetimeKey then some v else none
  | [] => none

/-- The date-time whose text a value is. -/
def datetime? : Toml.Value → Option Toml.Value
  | .string s => (Toml.Datetime.read? s.toList).map .datetime
  | _ => none

mutual

/-- The argument that a value stands for.  All integers in it have 64 bits, and a table that starts
with the reserved key is a date-time, whatever else it holds. -/
def argument? : Toml.Value → Option Toml.Value
  | .int i =>
      if -0x8000000000000000 ≤ i ∧ i < 0x8000000000000000 then some (.int i) else none
  | .badNumber _ => none
  | .array items => (arguments? items).map .array
  | .table es =>
      match reserved? es with
      | some v => datetime? v
      | none => (argumentEntries? es).map .table
  | v => some v

/-- The arguments that the values of a list stand for. -/
def arguments? : List Toml.Value → Option (List Toml.Value)
  | [] => some []
  | v :: vs => do
      let a ← argument? v
      let as ← arguments? vs
      some (a :: as)

/-- The entries of a table, with what their values stand for. -/
def argumentEntries? : List (String × Toml.Value) → Option (List (String × Toml.Value))
  | [] => some []
  | (k, v) :: es => do
      let a ← argument? v
      let as ← argumentEntries? es
      some ((k, a) :: as)

end

/-- The arguments of a launch. -/
def args? : Toml.Value → Option (List Toml.Value)
  | .array items => arguments? items
  | _ => none

/-! ### Sections -/

/-- The values that a section with the keys `keys` gives them, if it is one.  A date-time is a
section too, one without any of its keys. -/
def fields? (keys : List String) : Toml.Value → Option (String → Option Toml.Value)
  | .table es =>
      if es.all fun e => keys.contains e.1 || e.2.isSound then some (Table.lookup · es) else none
  | .array items => some fun k => (keys.idxOf? k).bind (items[·]?)
  | .datetime _ => some fun _ => none
  | _ => none

/-- A value that may be left out. -/
def orDefault {α : Type} (a : α) (read? : Toml.Value → Option α) : Option Toml.Value → Option α
  | none => some a
  | some v => read? v

/-- A value that may be absent. -/
def optional {α : Type} (read? : Toml.Value → Option α) : Option Toml.Value → Option (Option α)
  | none => some none
  | some v => (read? v).map some

def options? (v : Toml.Value) : Option ContextOptions := do
  let field ← fields? ["dependency_policy", "issue_policy", "batch_size", "max_streams"] v
  let dependency ←
    orDefault .withConst (choice? DependencyPolicy.ofName?) (field "dependency_policy")
  let issue ← orDefault .eager (choice? IssuePolicy.ofName?) (field "issue_policy")
  let batchSize ← orDefault 8 size? (field "batch_size")
  let maxStreams ← optional size? (field "max_streams")
  some { dependency, issue, batchSize, maxStreams }

def array? (v : Toml.Value) : Option ArrayEntry := do
  let field ← fields? ["type", "len"] v
  let typeName ← (field "type").bind string?
  let length ← (field "len").bind size?
  some { typeName, length }

def kernel? (v : Toml.Value) : Option String := do
  let field ← fields? ["signature"] v
  (field "signature").bind string?

def launch? (v : Toml.Value) : Option LaunchEntry := do
  let field ← fields? ["kernel", "args", "grid", "block", "access", "write"] v
  let kernel ← optional string? (field "kernel")
  let args ← orDefault [] args? (field "args")
  let grid ← orDefault 1 dimension? (field "grid")
  let block ← orDefault 1 dimension? (field "block")
  let access ← optional string? (field "access")
  let write ← orDefault false bool? (field "write")
  some { kernel, args, grid, block, access, write }

/-- A table of sections of one kind. -/
def sections? {α : Type} (read? : Toml.Value → Option α) : Toml.Value → Option (Table String α)
  | .table es => do
      let as ← es.mapM fun (k, v) => (read? v).map (k, ·)
      some (.ofList as)
  | _ => none

/-- A list of sections of one kind. -/
def sectionList? {α : Type} (read? : Toml.Value → Option α) : Toml.Value → Option (List α)
  | .array items => items.mapM read?
  | _ => none

/-! ### Files -/

/-- What a document says as a workload file. -/
def ofEntries? (es : List (String × Toml.Value)) : Option WorkloadFile := do
  let field ← fields? ["config", "array", "kernel", "launch"] (.table es)
  let options ← orDefault {} options? (field "config")
  let arrays ← orDefault .empty (sections? array?) (field "array")
  let kernels ← orDefault .empty (sections? kernel?) (field "kernel")
  let launches ← orDefault [] (sectionList? launch?) (field "launch")
  some { options, arrays, kernels, launches }

/-- What the text of a workload file says. -/
def read? (text : String) : Option WorkloadFile := (Toml.parse? text).bind ofEntries?

end WorkloadFile

end LaunchGraph
