import LaunchGraph.Toml.Number
import LaunchGraph.Toml.Tree

/-!
# Documents

A document is a list of statements, each on lines of its own: headers, which open the tables that
the following assignments fill.  `parse?` reads the whole document as one table.
-/

namespace LaunchGraph.Toml

/-- How deep arrays and inline tables may be nested, and how many parts a key may have. -/
def maxDepth : Nat := 80

/-! ### Keys -/

def isBareKeyChar (c : Char) : Bool :=
  c.isAlphanum || c == '_' || c == '-'

/-- A key without dots. -/
def simpleKey : Reader String := do
  if ← Reader.skip? ['\x22'] then String.ofList <$> Quoted.line '\x22'
  else if ← Reader.skip? ['\x27'] then String.ofList <$> Quoted.line '\x27'
  else
    let cs ← Reader.takeWhile isBareKeyChar
    if cs.isEmpty then failure else pure (String.ofList cs)

/-- One round of a key with dots, where `path` is what came before, in reverse. -/
def keyStep (path : List String) : Reader (List String ⊕ List String) := do
  spaces
  let k ← simpleKey
  spaces
  if ← Reader.skip? ['.'] then pure (.inl (k :: path)) else pure (.inr (k :: path).reverse)

/-- A key, as the path that its dots make. -/
def key : Reader (List String) := do
  let path ← Reader.iterate keyStep []
  if path.length ≤ maxDepth then pure path else failure

/-! ### Values -/

/-- One round of an array, where `items` are those that came before, in reverse. -/
def arrayStep (item : Reader Value) (items : List Value) :
    Reader (List Value ⊕ Value) := do
  gap
  if ← Reader.skip? [']'] then pure (.inr (.array items.reverse))
  else
    let v ← item
    gap
    if ← Reader.skip? [','] then pure (.inl (v :: items))
    else
      Reader.char ']'
      pure (.inr (.array (v :: items).reverse))

/-- One round of an inline table, where `entries` are those that came before. -/
def inlineTableStep (item : Reader Value) (entries : Entries) :
    Reader (Entries ⊕ Value) := do
  gap
  if ← Reader.skip? ['\x7d'] then pure (.inr (.table (closeEntries entries)))
  else
    let path ← key
    gap
    Reader.char '='
    gap
    let v ← item
    let entries ← Reader.require (entries.assign v true path)
    gap
    if ← Reader.skip? [','] then pure (.inl entries)
    else
      Reader.char '\x7d'
      pure (.inr (.table (closeEntries entries)))

/-- A value with at most `depth` arrays and inline tables around any part of it. -/
def value (depth : Nat) : Reader Value := do
  if ← Reader.skip? ['\x22', '\x22', '\x22'] then
    Value.string <$> String.ofList <$> Quoted.lines '\x22'
  else if ← Reader.skip? ['\x27', '\x27', '\x27'] then
    Value.string <$> String.ofList <$> Quoted.lines '\x27'
  else if ← Reader.skip? ['\x22'] then Value.string <$> String.ofList <$> Quoted.line '\x22'
  else if ← Reader.skip? ['\x27'] then Value.string <$> String.ofList <$> Quoted.line '\x27'
  else
    match depth with
    | 0 => bareValue
    | depth + 1 =>
        if ← Reader.skip? ['['] then Reader.iterate (arrayStep (value depth)) []
        else if ← Reader.skip? ['\x7b'] then Reader.iterate (inlineTableStep (value depth)) []
        else bareValue

/-! ### Statements -/

/-- What a document says in one place. -/
inductive Statement where
  /-- The header of a table. -/
  | table (path : List String)
  /-- The header of the next table of an array. -/
  | nextTable (path : List String)
  | assign (path : List String) (v : Value)

/-- A statement, with the rest of its last line. -/
def statement : Reader Statement := do
  if ← Reader.skip? ['[', '['] then
    let path ← key
    Reader.char ']'
    Reader.char ']'
    lineEnd
    pure (.nextTable path)
  else if ← Reader.skip? ['['] then
    let path ← key
    Reader.char ']'
    lineEnd
    pure (.table path)
  else
    let path ← key
    Reader.char '='
    spaces
    let v ← value maxDepth
    lineEnd
    pure (.assign path v)

/-- One round of a document, where `done` are the statements that came before, in reverse. -/
def documentStep (done : List Statement) : Reader (List Statement ⊕ List Statement) := do
  gap
  if (← get).isEmpty then pure (.inr done.reverse)
  else
    let s ← statement
    pure (.inl (s :: done))

/-- The statements of a whole document. -/
def statements : Reader (List Statement) := Reader.iterate documentStep []

/-- What has been read of a document, and the path of the last header. -/
structure Draft where
  root : Entries := []
  header : List String := []

/-- Carries out a statement. -/
def Draft.apply (d : Draft) : Statement → Option Draft
  | .table path => do
      let k ← path.getLast?
      let root ← d.root.within (Entries.openTable k) path.dropLast
      some { root, header := path }
  | .nextTable path => do
      let k ← path.getLast?
      let root ← d.root.within (Entries.openNext k) path.dropLast
      some { root, header := path }
  | .assign path v => do
      let root ← d.root.within (Entries.assign v true path) d.header
      some { d with root }

/-- A mark that some editors put in front of a text. -/
def dropMark : List Char → List Char
  | '\ufeff' :: cs => cs
  | cs => cs

/-- The entries of the table that a document describes. -/
def parse? (text : String) : Option (List (String × Value)) := do
  let (all, _) ← statements.run (dropMark text.toList)
  let d ← all.foldlM Draft.apply {}
  some (closeEntries d.root)

end LaunchGraph.Toml
