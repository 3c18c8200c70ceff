import LaunchGraph.Text.Blank
import LaunchGraph.Text.WordChar

/-!
# Patterns

A pattern is looked for in a text from left to right, and where it can match in several ways they
have an order of preference: the first of two alternatives, an optional part rather than none, and
as many characters of a class as possible.  The match is the one that begins first and is preferred
among those that begin there.  Groups tell which part of the text a part of the pattern matched.
-/

namespace LaunchGraph.Text

/-- A class of characters: `\s` and `\w`. -/
inductive CharClass where
  | blank
  | word
deriving DecidableEq, Repr

def CharClass.has : CharClass → Char → Bool
  | .blank => isBlank
  | .word => isWordChar

inductive Pattern where
  /-- The start of the text, `^`. -/
  | start
  /-- The end of the text, `$`. -/
  | stop
  | literal (w : String)
  /-- One or more characters of a class, such as `\w+`. -/
  | repeated (cls : CharClass)
  | seq (p q : Pattern)
  /-- Alternatives, `p|q`. -/
  | either (p q : Pattern)
  /-- A part that may be missing, `(?:p)?`. -/
  | optional (p : Pattern)
  /-- A group with a number, `(p)`. -/
  | group (i : Nat) (p : Pattern)
deriving DecidableEq, Repr

instance : Append Pattern := ⟨.seq⟩

/-- A place in a text: how many characters stand before it, those that stand behind it, and what
the groups have matched on the way, the last one first. -/
structure Cursor where
  passed : Nat
  rest : List Char
  groups : List (Nat × String) := []
deriving DecidableEq, Repr

namespace Cursor

/-- The place `n` characters on. -/
def skip (s : Cursor) (n : Nat) : Cursor :=
  { s with passed := s.passed + n, rest := s.rest.drop n }

/-- The place, where group `i` has matched what stands between it and an earlier place. -/
def note (t : Cursor) (i : Nat) (s : Cursor) : Cursor :=
  { t with groups := (i, .ofList (s.rest.take (t.passed - s.passed))) :: t.groups }

end Cursor

namespace Pattern

/-- The places where a match that begins at a place can end, the preferred ones first. -/
def ends : Pattern → Cursor → List Cursor
  | .start, s => if s.passed = 0 then [s] else []
  | .stop, s => if s.rest.isEmpty then [s] else []
  | .literal w, s => if w.toList.isPrefixOf s.rest then [s.skip w.length] else []
  | .repeated cls, s =>
      ((List.range (s.rest.takeWhile cls.has).length).reverse).map fun n => s.skip (n + 1)
  | .seq p q, s => (p.ends s).flatMap q.ends
  | .either p q, s => p.ends s ++ q.ends s
  | .optional p, s => p.ends s ++ [s]
  | .group i p, s => (p.ends s).map fun t => t.note i s

/-- What the groups match in the first match that begins `passed` characters on or later. -/
def search (p : Pattern) : Nat → List Char → Option (List (Nat × String))
  | passed, [] => (p.ends { passed, rest := [] }).head?.map Cursor.groups
  | passed, c :: rest =>
      match (p.ends { passed, rest := c :: rest }).head? with
      | some t => some t.groups
      | none => p.search (passed + 1) rest

/-- What the groups of a pattern match in a text, if it has a match there. -/
def captures (p : Pattern) (s : String) : Option (List (Nat × String)) := p.search 0 s.toList

end Pattern

end LaunchGraph.Text
