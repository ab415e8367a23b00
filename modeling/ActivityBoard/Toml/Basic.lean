import ActivityBoard.Binary64.Arithmetic

/-!
TOML values. A table remembers what made it, because that decides what later lines may add to it.
-/
namespace ActivityBoard

inductive Toml.Origin where
  | header
  /-- The header of a table further in. -/
  | nested
  | dotted
  | inline
deriving DecidableEq

inductive Toml where
  | text (value : String)
  | integer (value : Int)
  | float (value : Binary64)
  /-- What passes for a number by its spelling but has no value, or none within range. -/
  | unreadable
  | boolean (value : Bool)
  | moment (written : String)
  | array (items : List Toml)
  | table (origin : Toml.Origin) (entries : List (String × Toml))
  /-- The tables of a header in double brackets, the last one apart. -/
  | tables (earlier : List (List (String × Toml))) (last : List (String × Toml))

namespace Toml

abbrev Entries := List (String × Toml)

namespace Entries

def get? (entries : Entries) (key : String) : Option Toml := entries.lookup key

def add? (entries : Entries) (key : String) (value : Toml) : Option Entries :=
  match entries.get? key with
  | none => some (entries ++ [(key, value)])
  | some _ => none

def replace (entries : Entries) (key : String) (value : Toml) : Entries :=
  entries.map fun entry => if entry.1 = key then (key, value) else entry

end Entries

/-- The integers that 128 bits hold, with or without a sign. -/
def isWord (n : Int) : Bool :=
  decide (-170141183460469231731687303715884105728 ≤ n) &&
    decide (n ≤ 340282366920938463463374607431768211455)

mutual

def isRepresentable : Toml → Bool
  | .integer n => isWord n
  | .unreadable => false
  | .array items => allRepresentable items
  | .table _ entries => entriesRepresentable entries
  | .tables earlier last => tablesRepresentable earlier && entriesRepresentable last
  | _ => true

def allRepresentable : List Toml → Bool
  | [] => true
  | v :: rest => isRepresentable v && allRepresentable rest

def entriesRepresentable : List (String × Toml) → Bool
  | [] => true
  | (_, v) :: rest => isRepresentable v && entriesRepresentable rest

def tablesRepresentable : List (List (String × Toml)) → Bool
  | [] => true
  | entries :: rest => entriesRepresentable entries && tablesRepresentable rest

end

end Toml

end ActivityBoard
