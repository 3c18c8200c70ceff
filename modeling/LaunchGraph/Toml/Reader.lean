/-!
# Reading characters

A reader takes characters off the front of a text and may refuse.  `Reader.iterate` is the one
loop: since every round but the last takes a character, the length of the text bounds its rounds.
-/

namespace LaunchGraph.Toml

/-- Takes a part off the front of a text, if the text starts with one. -/
abbrev Reader (α : Type) : Type := StateT (List Char) Option α

namespace Reader

variable {σ α : Type}

/-- At most `rounds` rounds of `step`, up to the one that ends with a result. -/
def loop (step : σ → Reader (σ ⊕ α)) : Nat → σ → Reader α
  | 0, _ => failure
  | rounds + 1, s => do
      match ← step s with
      | .inl t => loop step rounds t
      | .inr a => pure a

/-- Rounds of `step` up to the one that ends with a result; every other round takes a character. -/
def iterate (step : σ → Reader (σ ⊕ α)) (s : σ) : Reader α := do
  let cs ← get
  loop step (cs.length + 1) s

/-- The next character, which stays where it is. -/
def peek? : Reader (Option Char) := do
  let cs ← get
  pure cs.head?

/-- The next character. -/
def next : Reader Char := do
  match ← get with
  | c :: cs =>
      set cs
      pure c
  | [] => failure

/-- A given character. -/
def char (c : Char) : Reader Unit := do
  let d ← next
  if d = c then pure () else failure

/-- Takes a given text if it comes next, and says whether it does. -/
def skip? (text : List Char) : Reader Bool := do
  let cs ← get
  if text.isPrefixOf cs then
    set (cs.drop text.length)
    pure true
  else pure false

/-- The characters up to the first one outside a class. -/
def takeWhile (p : Char → Bool) : Reader (List Char) := do
  let cs ← get
  set (cs.dropWhile p)
  pure (cs.takeWhile p)

/-- Exactly `n` characters of a class. -/
def exactly (p : Char → Bool) (n : Nat) : Reader (List Char) := do
  let cs ← get
  if (cs.take n).length = n ∧ (cs.take n).all p then
    set (cs.drop n)
    pure (cs.take n)
  else failure

/-- What an option holds. -/
def require (o : Option α) : Reader α := fun cs => o.map (·, cs)

end Reader

/-! ### Between the parts of a document -/

/-- Blanks inside a line. -/
def isSpace (c : Char) : Bool := c == ' ' || c == '\t'

/-- The characters that comments and strings may hold as they are: all but the control characters
of ASCII, and the tabulator. -/
def isPlain (c : Char) : Bool := c == '\t' || (0x20 ≤ c.toNat && c.toNat != 0x7f)

/-- Blanks inside a line. -/
def spaces : Reader Unit := do
  let _ ← Reader.takeWhile isSpace

/-- The text after blanks, line ends and comments; `comment` says that it starts inside of one. -/
def dropGap (comment : Bool) : List Char → Option (List Char)
  | [] => some []
  | '\n' :: cs => dropGap false cs
  | '\r' :: '\n' :: cs => dropGap false cs
  | c :: cs =>
      if comment then if isPlain c then dropGap true cs else none
      else if isSpace c then dropGap false cs
      else if c = '#' then dropGap true cs
      else some (c :: cs)

/-- Blanks, line ends and comments. -/
def gap : Reader Unit := do
  let cs ← get
  let rest ← Reader.require (dropGap false cs)
  set rest

/-- A line end, if it comes next. -/
def newline? : Reader Bool := do
  if ← Reader.skip? ['\n'] then pure true else Reader.skip? ['\r', '\n']

/-- The rest of a line: blanks and a comment. -/
def lineEnd : Reader Unit := do
  spaces
  if ← Reader.skip? ['#'] then
    let _ ← Reader.takeWhile isPlain
  if ← newline? then pure ()
  else if (← get).isEmpty then pure ()
  else failure

end LaunchGraph.Toml
