/-!
# Dates and times

The date-times of TOML: a date, a time of day, or both, the latter also with its distance from
UTC.  `Datetime.read?` accepts exactly the texts of these forms with a day that its month has,
and `Datetime.text` writes them in one way: with `T` and `Z` in upper case, the seconds given and
no zeros at the end of the fraction.
-/

namespace LaunchGraph.Toml

structure Date where
  year : Nat
  month : Nat
  day : Nat
deriving DecidableEq, Repr

structure Time where
  hour : Nat
  minute : Nat
  second : Nat
  nanosecond : Nat
deriving DecidableEq, Repr

/-- The distance of a time from UTC. -/
inductive Offset where
  | utc
  /-- Ahead of UTC by so many minutes. -/
  | ahead (minutes : Int)
deriving DecidableEq, Repr

inductive Datetime where
  | day (date : Date)
  | timeOfDay (time : Time)
  | moment (date : Date) (time : Time) (offset : Option Offset)
deriving DecidableEq, Repr

/-! ### The calendar -/

def isLeapYear (year : Nat) : Bool :=
  year % 4 == 0 && (year % 100 != 0 || year % 400 == 0)

/-- The number of days of a month, none if there is no such month. -/
def daysOfMonth (year month : Nat) : Nat :=
  if month = 2 then if isLeapYear year then 29 else 28
  else if month ∈ [4, 6, 9, 11] then 30
  else if 1 ≤ month ∧ month ≤ 12 then 31
  else 0

/-- The calendar has the day. -/
def Date.isValid (d : Date) : Bool := 1 ≤ d.day && d.day ≤ daysOfMonth d.year d.month

/-- The clock shows the time; a minute may end with a leap second. -/
def Time.isValid (t : Time) : Bool := t.hour ≤ 23 && t.minute ≤ 59 && t.second ≤ 60

/-! ### Reading -/

/-- The number that decimal digits stand for. -/
def ofDigits (ds : List Char) : Nat := ds.foldl (fun n c => 10 * n + (c.toNat - 48)) 0

/-- A number of exactly `width` digits at the start of a text, and the rest. -/
def digits? (width : Nat) (cs : List Char) : Option (Nat × List Char) :=
  let ds := cs.take width
  if ds.length = width ∧ ds.all Char.isDigit then some (ofDigits ds, cs.drop width) else none

/-- A given character at the start of a text is dropped. -/
def char? (c : Char) : List Char → Option (List Char)
  | d :: cs => if d = c then some cs else none
  | [] => none

/-- The nanoseconds of a fraction of a second; digits after the ninth are dropped. -/
def nanoseconds (ds : List Char) : Nat :=
  ofDigits (ds.take 9) * Nat.pow 10 (9 - (ds.take 9).length)

/-- The date at the start of a text, and the rest. -/
def Date.read? (cs : List Char) : Option (Date × List Char) := do
  let (year, cs) ← digits? 4 cs
  let cs ← char? '-' cs
  let (month, cs) ← digits? 2 cs
  let cs ← char? '-' cs
  let (day, cs) ← digits? 2 cs
  let date : Date := { year, month, day }
  if date.isValid then some (date, cs) else none

/-- The seconds at the start of a text, with their fraction, and the rest. -/
def readSeconds? (cs : List Char) : Option (Nat × Nat × List Char) := do
  let (second, cs) ← digits? 2 cs
  match cs with
  | '.' :: cs =>
      let ds := cs.takeWhile Char.isDigit
      if ds.isEmpty then none else some (second, nanoseconds ds, cs.dropWhile Char.isDigit)
  | _ => some (second, 0, cs)

/-- The time at the start of a text, and the rest.  The seconds may be left out. -/
def Time.read? (cs : List Char) : Option (Time × List Char) := do
  let (hour, cs) ← digits? 2 cs
  let cs ← char? ':' cs
  let (minute, cs) ← digits? 2 cs
  let (second, nanosecond, cs) ←
    match cs with
    | ':' :: cs => readSeconds? cs
    | _ => some (0, 0, cs)
  let time : Time := { hour, minute, second, nanosecond }
  if time.isValid then some (time, cs) else none

/-- The offset that a text is. -/
def Offset.read? : List Char → Option Offset
  | ['Z'] | ['z'] => some .utc
  | sign :: cs => do
      let (hours, cs) ← digits? 2 cs
      let cs ← char? ':' cs
      let (minutes, cs) ← digits? 2 cs
      let distance : Int := (60 * hours + minutes : Nat)
      if cs = [] ∧ hours ≤ 23 ∧ minutes ≤ 59 then
        if sign = '+' then some (.ahead distance)
        else if sign = '-' then some (.ahead (-distance))
        else none
      else none
  | [] => none

/-- A date and a time are divided by `T` or by a blank. -/
def isTimeMark (c : Char) : Bool := c == 'T' || c == 't' || c == ' '

/-- The date-time that a text is. -/
def Datetime.read? (cs : List Char) : Option Datetime :=
  match Date.read? cs with
  | none => do
      let (time, rest) ← Time.read? cs
      if rest = [] then some (.timeOfDay time) else none
  | some (date, []) => some (.day date)
  | some (date, mark :: cs) => do
      let (time, rest) ← if isTimeMark mark then Time.read? cs else none
      match rest with
      | [] => some (.moment date time none)
      | _ => do
          let offset ← Offset.read? rest
          some (.moment date time (some offset))

/-! ### Writing -/

/-- A number with zeros in front up to `width` digits. -/
def zeroPadded (width n : Nat) : String :=
  let ds := Nat.toDigits 10 n
  String.ofList (List.replicate (width - ds.length) '0' ++ ds)

def Date.text (d : Date) : String :=
  zeroPadded 4 d.year ++ "-" ++ zeroPadded 2 d.month ++ "-" ++ zeroPadded 2 d.day

/-- The fraction of a second, without zeros at its end. -/
def fractionText (nanosecond : Nat) : String :=
  if nanosecond = 0 then ""
  else
    let ds := (zeroPadded 9 nanosecond).toList
    String.ofList ('.' :: (ds.reverse.dropWhile (· == '0')).reverse)

def Time.text (t : Time) : String :=
  zeroPadded 2 t.hour ++ ":" ++ zeroPadded 2 t.minute ++ ":" ++ zeroPadded 2 t.second
    ++ fractionText t.nanosecond

def Offset.text : Offset → String
  | .utc => "Z"
  | .ahead m =>
      (if m < 0 then "-" else "+") ++ zeroPadded 2 (m.natAbs / 60) ++ ":"
        ++ zeroPadded 2 (m.natAbs % 60)

def Datetime.text : Datetime → String
  | .day date => date.text
  | .timeOfDay time => time.text
  | .moment date time offset =>
      date.text ++ "T" ++ time.text ++ (offset.map Offset.text).getD ""

end LaunchGraph.Toml
