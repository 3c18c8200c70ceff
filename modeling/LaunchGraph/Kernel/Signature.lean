import LaunchGraph.Error
import LaunchGraph.Text.Pattern

/-!
# Kernel signatures

A signature lists the parameters of a kernel, parted by commas.  Each parameter is a few words,
with any blanks between them.  Two patterns tell what they mean once every gap is a single blank:

* `T`, a scalar of type `T`, which is not `void`;
* `pointer` or `pointer T`, a device array the kernel may write;
* `q pointer` or `q pointer T`, where `const` and `in` mark an array the kernel only reads, and
  `out` and `inout` say again that it may be written.

A pointer without a type accepts arrays of every type.  The keywords are in lower case, the names
of types in any.  A blank signature has no parameters.
-/

namespace LaunchGraph

open Text (Pattern)

/-- One parameter of a kernel. -/
inductive Parameter where
  | pointer (type : ElementType) (isConst : Bool)
  | scalar (type : ElementType)
deriving DecidableEq, Repr

namespace Parameter

def type : Parameter → ElementType
  | .pointer t _ => t
  | .scalar t => t

def isArray : Parameter → Bool
  | .pointer .. => true
  | .scalar _ => false

/-- Whether the kernel leaves the argument as it is; it never changes a scalar. -/
def isConst : Parameter → Bool
  | .pointer _ c => c
  | .scalar _ => true

end Parameter

namespace Signature

/-- The word before `pointer`: `(const|in|out|inout)\s+`. -/
def qualifierPattern : Pattern :=
  .group 1 (.either (.literal "const") <| .either (.literal "in") <|
    .either (.literal "out") (.literal "inout")) ++ .repeated .blank

/-- The word behind `pointer`: `\s+(\w+)`. -/
def pointeePattern : Pattern := .repeated .blank ++ .group 2 (.repeated .word)

/-- A pointer: `^(?:(const|in|out|inout)\s+)?pointer(?:\s+(\w+))?$`. -/
def pointerPattern : Pattern :=
  .start ++ (.optional qualifierPattern ++ .literal "pointer" ++ .optional pointeePattern) ++ .stop

/-- A scalar: `^(\w+)$`. -/
def scalarPattern : Pattern := .start ++ .group 1 (.repeated .word) ++ .stop

/-- The type that a word names. -/
def readType (w : String) : Except SignatureFault ElementType :=
  (ElementType.read w).mapError .unknownType

/-- The pointer with a qualifier and the name of a type, each of which may be missing. -/
def readPointer (qualifier name : Option String) : Except SignatureFault Parameter :=
  let isConst := match qualifier with
    | some "const" | some "in" => true
    | _ => false
  match name with
  | some w => (readType w).map fun t => .pointer t isConst
  | none => .ok (.pointer .void isConst)

def readScalar (name : String) : Except SignatureFault Parameter :=
  match readType name with
  | .ok .void => .error .bareVoid
  | .ok t => .ok (.scalar t)
  | .error fault => .error fault

/-- The parameter that a text stands for. -/
def readParameter (parameter : String) : Except SignatureFault Parameter :=
  match pointerPattern.captures parameter with
  | some groups => readPointer (groups.lookup 1) (groups.lookup 2)
  | none =>
      match scalarPattern.captures parameter with
      -- the group takes part in every match
      | some groups => readScalar ((groups.lookup 1).getD "")
      | none => .error (.unparsable parameter)

/-- The parameters of the pieces, in order; the first piece that is refused decides. -/
def readPieces : List (List Char) → Except SignatureFault (List Parameter)
  | [] => .ok []
  | piece :: rest =>
      match readParameter (" ".intercalate (Text.words piece)) with
      | .error fault => .error fault
      | .ok p =>
          match readPieces rest with
          | .error fault => .error fault
          | .ok ps => .ok (p :: ps)

/-- The parameters that a signature lists. -/
def parse (s : String) : Except Error (List Parameter) :=
  if (Text.trim s).isEmpty then .ok []
  else
    match readPieces (s.toList.splitOn ',') with
    | .ok ps => .ok ps
    | .error fault => .error (.invalidSignature s fault)

/-- A signature that is not accepted is invalid, whatever its fault is. -/
theorem parse_cases (s : String) :
    (∃ ps, parse s = .ok ps) ∨ ∃ fault, parse s = .error (.invalidSignature s fault) := by
  unfold parse
  split
  · exact .inl ⟨_, rfl⟩
  · split
    · exact .inl ⟨_, rfl⟩
    · exact .inr ⟨_, rfl⟩

end Signature

end LaunchGraph
