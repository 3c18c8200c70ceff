import LaunchGraph.Table
import LaunchGraph.Toml.Value

/-!
# Trees of tables

What has been read of a document.  A header opens a table, a double header opens the next table
of an array, and a key with dots opens tables on its way; each of these may be done to a table
only once, and none may be done to a value.  So a tree remembers for each table how it came
about, until it is closed to a value.
-/

namespace LaunchGraph.Toml

/-- How a table came about. -/
inductive Origin where
  /-- It lies on the way to the table of a header, and may still get a header of its own. -/
  | implied
  /-- It has a header. -/
  | header
  /-- It lies on the way of a key with dots, and other such keys may add to it. -/
  | dotted
deriving DecidableEq, Repr

/-- A part of a document that is being read. -/
inductive Node where
  | value (v : Value)
  | table (origin : Origin) (entries : List (String × Node))
  /-- An array of tables: those that are complete, and the one that is being read. -/
  | tables (complete : List (List (String × Node))) (last : List (String × Node))

/-- The entries of a table that is being read, by key. -/
abbrev Entries : Type := List (String × Node)

namespace Entries

open Table (lookup insertAt)

/-- Changes the entries of the table at a path of header names; tables that are missing on the way
are implied. -/
def within (change : Entries → Option Entries) : List String → Entries → Option Entries
  | [], es => change es
  | k :: path, es =>
      match lookup k es with
      | none => do
          let inner ← within change path []
          some (insertAt k (.table .implied inner) es)
      | some (.table origin inner) => do
          let inner ← within change path inner
          some (insertAt k (.table origin inner) es)
      | some (.tables complete last) => do
          let last ← within change path last
          some (insertAt k (.tables complete last) es)
      | some (.value _) => none

/-- Opens the table of a header; only one that is implied may be there already. -/
def openTable (k : String) (es : Entries) : Option Entries :=
  match lookup k es with
  | none => some (insertAt k (.table .header []) es)
  | some (.table .implied inner) => some (insertAt k (.table .header inner) es)
  | some _ => none

/-- Opens the next table of an array. -/
def openNext (k : String) (es : Entries) : Option Entries :=
  match lookup k es with
  | none => some (insertAt k (.tables [] []) es)
  | some (.tables complete last) => some (insertAt k (.tables (complete ++ [last]) []) es)
  | some _ => none

/-- Sets the value at a key with dots.  The way may pass through an implied table and through the
last table of an array, but a table that gets an entry has to be `mine`: the one of the header, or
opened by such a key. -/
def assign (v : Value) (mine : Bool) : List String → Entries → Option Entries
  | [], _ => none
  | [k], es =>
      if mine ∧ (lookup k es).isNone then some (insertAt k (.value v) es) else none
  | k :: path, es =>
      match lookup k es with
      | none => do
          let inner ← assign v true path []
          some (insertAt k (.table .dotted inner) es)
      | some (.table .dotted inner) => do
          let inner ← assign v true path inner
          some (insertAt k (.table .dotted inner) es)
      | some (.table .implied inner) => do
          let inner ← assign v false path inner
          some (insertAt k (.table .implied inner) es)
      | some (.tables complete last) => do
          let last ← assign v false path last
          some (insertAt k (.tables complete last) es)
      | some _ => none

end Entries

mutual

/-- The value of a complete part. -/
def Node.close : Node → Value
  | .value v => v
  | .table _ es => .table (closeEntries es)
  | .tables complete last => .array (closeTables complete ++ [.table (closeEntries last)])

/-- The entries of a complete table. -/
def closeEntries : List (String × Node) → List (String × Value)
  | [] => []
  | (k, n) :: es => (k, n.close) :: closeEntries es

/-- The tables of a complete array. -/
def closeTables : List (List (String × Node)) → List Value
  | [] => []
  | es :: rest => .table (closeEntries es) :: closeTables rest

end

end LaunchGraph.Toml
