import LaunchGraph.Toml.Reader

/-!
# Quoted text

Strings between quotes, on one line or on several.  Between double quotes a backslash starts an
escape; between single quotes every character stands for itself.  Text on several lines stands
between three quotes: a line end right after the opening quotes does not count, and up to two
quotes may stand right before the closing ones.

`write` chooses the plainest form that can hold a text.
-/

namespace LaunchGraph.Toml.Quoted

/-! ### Reading -/

/-- The character of an escape of one letter. -/
def escaped? : Char → Option Char
  | 'b' => some '\x08'
  | 't' => some '\t'
  | 'n' => some '\n'
  | 'f' => some '\x0c'
  | 'r' => some '\r'
  | 'e' => some '\x1b'
  | '\x22' => some '\x22'
  | '\x5c' => some '\x5c'
  | _ => none

def isHexDigit (c : Char) : Bool :=
  c.isDigit || ('a' ≤ c && c ≤ 'f') || ('A' ≤ c && c ≤ 'F')

def hexDigit (c : Char) : Nat :=
  if c.isDigit then c.toNat - 48 else if 'a' ≤ c then c.toNat - 87 else c.toNat - 55

/-- The character with a number, if there is one. -/
def charOf? (n : Nat) : Option Char := if n.isValidChar then some (Char.ofNat n) else none

/-- The character whose number is written with `width` hexadecimal digits. -/
def numbered (width : Nat) : Reader Char := do
  let ds ← Reader.exactly isHexDigit width
  Reader.require (charOf? (ds.foldl (fun n c => 16 * n + hexDigit c) 0))

/-- The character that an escape stands for, after its backslash. -/
def escape : Reader Char := do
  match ← Reader.next with
  | 'x' => numbered 2
  | 'u' => numbered 4
  | 'U' => numbered 8
  | c => Reader.require (escaped? c)

/-- One round of a string on one line, where `text` is what came before, in reverse. -/
def lineStep (quote : Char) (text : List Char) : Reader (List Char ⊕ List Char) := do
  let c ← Reader.next
  if c = quote then pure (.inr text.reverse)
  else if c = '\x5c' ∧ quote = '\x22' then do
    let d ← escape
    pure (.inl (d :: text))
  else if isPlain c then pure (.inl (c :: text))
  else failure

/-- A string on one line, after its opening quote. -/
def line (quote : Char) : Reader (List Char) := Reader.iterate (lineStep quote) []

/-- One round of blanks and line ends. -/
def blankStep (_ : Unit) : Reader (Unit ⊕ Unit) := do
  match ← Reader.peek? with
  | some ' ' | some '\t' =>
      spaces
      pure (.inl ())
  | _ => if ← newline? then pure (.inl ()) else pure (.inr ())

/-- A backslash at the end of a line takes away the line end and all blanks up to the next
character. -/
def foldedLine : Reader Unit := do
  spaces
  if ← newline? then Reader.iterate blankStep () else failure

/-- One round of a string on several lines, where `text` is what came before, in reverse. -/
def linesStep (quote : Char) (text : List Char) : Reader (List Char ⊕ List Char) := do
  if ← Reader.skip? [quote, quote, quote] then
    if ← Reader.skip? [quote, quote] then pure (.inr (quote :: quote :: text).reverse)
    else if ← Reader.skip? [quote] then pure (.inr (quote :: text).reverse)
    else pure (.inr text.reverse)
  else if ← Reader.skip? ['\r', '\n'] then pure (.inl ('\n' :: '\r' :: text))
  else
    let c ← Reader.next
    if c = '\x5c' ∧ quote = '\x22' then
      match ← Reader.peek? with
      | some ' ' | some '\t' | some '\r' | some '\n' =>
          foldedLine
          pure (.inl text)
      | _ =>
          let d ← escape
          pure (.inl (d :: text))
    else if isPlain c ∨ c = '\n' then pure (.inl (c :: text))
    else failure

/-- A string on several lines, after its opening quotes. -/
def lines (quote : Char) : Reader (List Char) := do
  let _ ← newline?
  Reader.iterate (linesStep quote) []

/-! ### Writing -/

/-- Control characters that cannot stand for themselves in any form, other than line ends. -/
def needsEscape (c : Char) : Bool := !isPlain c && c != '\n'

/-- The length of the longest run of a character, where `here` is the length of the run that ends
just before the text. -/
def longestRun (q : Char) (here : Nat) : List Char → Nat
  | [] => here
  | c :: cs => if c = q then longestRun q (here + 1) cs else max here (longestRun q 0 cs)

/-- Four hexadecimal digits in upper case. -/
def hexText (n : Nat) : List Char :=
  let ds := (Nat.toDigits 16 n).map Char.toUpper
  List.replicate (4 - ds.length) '0' ++ ds

/-- A character in escaped form, other than a double quote. -/
def escapeChar (c : Char) : List Char :=
  match c with
  | '\x08' => ['\x5c', 'b']
  | '\t' => ['\x5c', 't']
  | '\n' => ['\x5c', 'n']
  | '\x0c' => ['\x5c', 'f']
  | '\r' => ['\x5c', 'r']
  | '\x5c' => ['\x5c', '\x5c']
  | c => if needsEscape c then '\x5c' :: 'u' :: hexText c.toNat else [c]

/-- Text between double quotes.  On several lines a line end and up to two quotes in a row stand
for themselves; `quotes` is the number of quotes just before the text that do. -/
def escapeText (several : Bool) (quotes : Nat) : List Char → List Char
  | [] => []
  | c :: cs =>
      if c = '\x22' then
        if several ∧ quotes < 2 then c :: escapeText several (quotes + 1) cs
        else '\x5c' :: c :: escapeText several 0 cs
      else if c = '\n' ∧ several then c :: escapeText several 0 cs
      else escapeChar c ++ escapeText several 0 cs

/-- Text between double quotes on one line. -/
def writeLine (cs : List Char) : List Char := '\x22' :: escapeText false 0 cs ++ ['\x22']

/-- Text between single quotes on one line. -/
def writeLiteral (cs : List Char) : List Char := '\x27' :: cs ++ ['\x27']

/-- The body of a text on several lines starts on a line of its own if it has a line end. -/
def ownLine (cs : List Char) : List Char := if '\n' ∈ cs then ['\n'] else []

def writeLines (cs : List Char) : List Char :=
  ['\x22', '\x22', '\x22'] ++ ownLine cs ++ escapeText true 0 cs ++ ['\x22', '\x22', '\x22']

def writeLiteralLines (cs : List Char) : List Char :=
  ['\x27', '\x27', '\x27'] ++ ownLine cs ++ cs ++ ['\x27', '\x27', '\x27']

/-- A text in the first form that can hold it without an escape, or escaped. -/
def writeChars (cs : List Char) : List Char :=
  let control := cs.any needsEscape
  let backslash := '\x5c' ∈ cs
  let doubles := longestRun '\x22' 0 cs
  let singles := longestRun '\x27' 0 cs
  let several := '\n' ∈ cs
  if !control ∧ !backslash ∧ doubles = 0 ∧ !several then writeLine cs
  else if !control ∧ singles = 0 ∧ !several then writeLiteral cs
  else if !control ∧ !backslash ∧ doubles ≤ 2 then writeLines cs
  else if !control ∧ singles ≤ 2 then writeLiteralLines cs
  else if several then writeLines cs
  else writeLine cs

/-- The written form of a text. -/
def write (s : String) : String := String.ofList (writeChars s.toList)

end LaunchGraph.Toml.Quoted
