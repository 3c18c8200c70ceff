import LaunchGraph.Toml.Value
import LaunchGraph.Toml.Quoted

/-!
# Bare values

The values that are written without quotes or brackets: numbers, truth values and date-times.
Digits may be grouped by underscores, each between two digits.

An integer is read in two steps.  Its outline is looked at first, and there the characters inside
a group count for nothing; a number with an outline but without a value is a bad number.
-/

namespace LaunchGraph.Toml

namespace Number

/-- Digits without the underscores that group them; there is at least one. -/
def ungroup (p : Char → Bool) : List Char → Option (List Char)
  | [] => none
  | [c] => if p c then some [c] else none
  | c :: '_' :: cs => if p c then (ungroup p cs).map (c :: ·) else none
  | c :: cs => if p c then (ungroup p cs).map (c :: ·) else none

/-- Whether a zero stands in front of other digits, which is not allowed. -/
def hasSpareZero (ds : List Char) : Bool := ds.head? == some '0' && ds != ['0']

/-- The digits of the whole part of a floating point number. -/
def wholeDigits (cs : List Char) : Option (List Char) := do
  let ds ← ungroup Char.isDigit cs
  if hasSpareZero ds then none else some ds

/-- The sign at the start of a text, and the rest. -/
def splitSign : List Char → Bool × List Char
  | '-' :: cs => (true, cs)
  | '+' :: cs => (false, cs)
  | cs => (false, cs)

/-- Integers of 128 bits, with or without a sign, are held. -/
def inRange (i : Int) : Bool :=
  -0x80000000000000000000000000000000 ≤ i && i < 0x100000000000000000000000000000000

/-- The value of an integer that is written as `literal`. -/
def ofInt (literal : List Char) (i : Int) : Value :=
  if inRange i then .int i else .badNumber (String.ofList literal)

/-- The value of a number with a fraction or an exponent that is written as `literal` and rounds to
`x`. -/
def ofRounded (literal : List Char) (x : Binary64) : Value :=
  if x.isInfinite then .badNumber (String.ofList literal) else .float x

/-! ### Integers -/

/-- The number that is written as `literal` in another base, where `cs` is what follows its mark.
The mark alone is a bad number. -/
def inBase? (base : Nat) (literal cs : List Char) : Option Value :=
  if cs.isEmpty then some (.badNumber (String.ofList literal))
  else do
    let ds ← ungroup (fun c => Quoted.isHexDigit c && Quoted.hexDigit c < base) cs
    some (ofInt literal (ds.foldl (fun n c => base * n + Quoted.hexDigit c) 0 : Nat))

/-- The outline of the groups after an underscore: hexadecimal digits stand next to every
underscore. -/
def groupsFollow : List (List Char) → Bool
  | [] => true
  | [g] => g.head?.any Quoted.isHexDigit
  | g :: gs =>
      g.head?.any Quoted.isHexDigit && g.getLast?.any Quoted.isHexDigit && groupsFollow gs

/-- The decimal integer that is written as `literal`, where `cs` is what follows its sign.  Its
first group has decimal digits only, and no group has a space. -/
def integer? (literal : List Char) (negative : Bool) (cs : List Char) : Option Value :=
  match cs.splitOn '_' with
  | [] => none
  | first :: groups =>
      if !first.isEmpty && first.all Char.isDigit && !hasSpareZero cs && groupsFollow groups &&
          !cs.contains ' ' then
        let ds := first ++ groups.flatten
        if ds.all Char.isDigit then
          some (ofInt literal (if negative then -(ofDigits ds : Int) else ofDigits ds))
        else some (.badNumber (String.ofList literal))
      else none

/-! ### Floating point numbers -/

/-- The exponent of a floating point number; without an `e` it is zero. -/
def exponent? : List Char → Option Int
  | [] => some 0
  | _ :: cs => do
      let (negative, cs) := splitSign cs
      let ds ← ungroup Char.isDigit cs
      some (if negative then -(ofDigits ds : Int) else ofDigits ds)

/-- The mark of an exponent. -/
def isScaleMark (c : Char) : Bool := c == 'e' || c == 'E'

/-- The floating point number that is written as `literal`, where `cs` is what follows its sign. -/
def float? (literal : List Char) (negative : Bool) (cs : List Char) : Option Value := do
  let mantissa := cs.takeWhile (!isScaleMark ·)
  let scale := cs.dropWhile (!isScaleMark ·)
  let whole ← wholeDigits (mantissa.takeWhile (· != '.'))
  let fraction ←
    match mantissa.dropWhile (· != '.') with
    | [] => some []
    | _ :: ds => ungroup Char.isDigit ds
  let exponent ← exponent? scale
  some (ofRounded literal
    (.ofDecimal negative (ofDigits (whole ++ fraction)) (exponent - fraction.length)))

/-! ### Numbers -/

/-- The decimal number that is written as `literal`, where `cs` is what follows its sign.  One with
a point or an exponent is a floating point number. -/
def decimal? (literal : List Char) (negative : Bool) (cs : List Char) : Option Value :=
  if cs.any fun c => c == '.' || isScaleMark c then float? literal negative cs
  else integer? literal negative cs

/-- The number that a text is. -/
def read? (cs : List Char) : Option Value :=
  match cs with
  | '0' :: 'x' :: ds => inBase? 16 cs ds
  | '0' :: 'o' :: ds => inBase? 8 cs ds
  | '0' :: 'b' :: ds => inBase? 2 cs ds
  | _ =>
      let (negative, ds) := splitSign cs
      if ds = ['i', 'n', 'f'] then some (.float (.infinity negative))
      else if ds = ['n', 'a', 'n'] then some (.float .nan)
      else decimal? cs negative ds

end Number

/-- The characters of bare values: all but blanks, line ends and those that have a meaning of their
own between values. -/
def isBareValueChar (c : Char) : Bool :=
  !(isSpace c || c == '\n' || c == '\r' || c == '=' || c == ',' || c == '#' || c == '[' ||
    c == ']' || c == '\x7b' || c == '\x7d')

/-- The value that a bare text is. -/
def bareValue? (cs : List Char) : Option Value :=
  if cs = ['t', 'r', 'u', 'e'] then some (.bool true)
  else if cs = ['f', 'a', 'l', 's', 'e'] then some (.bool false)
  else
    match Number.read? cs with
    | some v => some v
    | none => (Datetime.read? cs).map .datetime

/-- Whether the text after some blanks goes on with a word, which starts neither with a quote nor
with a point. -/
def wordFollows (cs : List Char) : Bool :=
  match cs.dropWhile isSpace with
  | c :: _ => isBareValueChar c && c != '.' && c != '\x22' && c != '\x27'
  | [] => false

/-- The bare text at the start of a text, and the rest.  The blanks between two words belong to it,
since one of them may part a date from a time. -/
def splitBare : List Char → List Char × List Char
  | [] => ([], [])
  | c :: cs =>
      if isBareValueChar c || (isSpace c && wordFollows cs) then
        let (bare, rest) := splitBare cs
        (c :: bare, rest)
      else ([], c :: cs)

/-- A bare value. -/
def bareValue : Reader Value := do
  let (bare, rest) := splitBare (← get)
  set rest
  Reader.require (bareValue? bare)

end LaunchGraph.Toml
