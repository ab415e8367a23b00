import ActivityBoard.Toml.Number
import ActivityBoard.Toml.Moment
import ActivityBoard.Toml.Text

/-!
TOML keys and values. Arrays and tables in braces may go over several lines, with comments in them
and a comma behind the last entry; a key stays on one line.
-/
namespace ActivityBoard.Toml

structure Key where
  path : List String
  name : String

def isKeyChar (c : Char) : Bool := c.isAlphanum || c = '_' || c = '-'

def readName : List Char → Option (String × List Char)
  | '"' :: rest => readShort '"' rest
  | '\'' :: rest => readShort '\'' rest
  | cs =>
    let name := cs.takeWhile isKeyChar
    if name.isEmpty then none else some (String.ofList name, cs.dropWhile isKeyChar)

def readNames : Nat → List Char → Option (Key × List Char)
  | 0, _ => none
  | fuel + 1, cs => do
    let (name, rest) ← readName cs
    match skipBlanks rest with
    | '.' :: rest => do
      let (key, rest) ← readNames fuel (skipBlanks rest)
      pure (⟨name :: key.path, key.name⟩, rest)
    | rest => pure (⟨[], name⟩, rest)

/-- How deep tables may lie in a key, and arrays and tables in braces in a value. -/
def depthLimit : Nat := 80

def readKey (cs : List Char) : Option (Key × List Char) := readNames depthLimit cs

def skipGaps (comment : Bool) : List Char → List Char
  | '\n' :: cs => skipGaps false cs
  | '\r' :: '\n' :: cs => skipGaps false cs
  | c :: cs =>
    if comment then (if isPlain c then skipGaps true cs else c :: cs)
    else if isBlank c then skipGaps false cs
    else if c = '#' then skipGaps true cs
    else c :: cs
  | [] => []

def isBare (c : Char) : Bool :=
  !isBlank c && !(['\n', '\r', '#', ',', '=', '[', ']', '{', '}'].contains c)

/-- Whether something bare stands behind the blanks, if there are any. A quote would begin a string
there. -/
def goesOnBare (cs : List Char) : Bool :=
  (skipBlanks cs).head?.any fun c => isBare c && c ≠ '"' && c ≠ '\''

/-- The spelling of a bare value, and the rest. Blanks are part of it if it goes on behind them, as
between a date and a time; those behind all of it are not. -/
def bareToken : List Char → List Char × List Char
  | [] => ([], [])
  | c :: cs =>
    if isBare c || (isBlank c && goesOnBare cs) then
      let (token, rest) := bareToken cs
      (c :: token, rest)
    else ([], c :: cs)

def bare? (token : List Char) : Option Toml :=
  if token = ['t', 'r', 'u', 'e'] then some (.boolean true)
  else if token = ['f', 'a', 'l', 's', 'e'] then some (.boolean false)
  else if isMoment token then some (.moment (String.ofList token))
  else number? token

def readScalar : List Char → Option (Toml × List Char)
  | '"' :: '"' :: '"' :: rest => (readLong '"' rest).map fun (s, rest) => (.text s, rest)
  | '\'' :: '\'' :: '\'' :: rest => (readLong '\'' rest).map fun (s, rest) => (.text s, rest)
  | '"' :: rest => (readShort '"' rest).map fun (s, rest) => (.text s, rest)
  | '\'' :: rest => (readShort '\'' rest).map fun (s, rest) => (.text s, rest)
  | cs =>
    let (token, rest) := bareToken cs
    (bare? token).map fun v => (v, rest)

/-- Entries up to `close`, at most `fuel` of them, with commas between them and perhaps one behind
the last. -/
def readEntries {α : Type} (entry : List Char → Option (α × List Char)) (close : Char) :
    Nat → List Char → Option (List α × List Char)
  | 0, _ => none
  | fuel + 1, cs =>
    match skipGaps false cs with
    | [] => none
    | c :: rest =>
      if c = close then some ([], rest)
      else do
        let (x, rest) ← entry (c :: rest)
        match skipGaps false rest with
        | [] => none
        | d :: rest =>
          if d = close then pure ([x], rest)
          else if d = ',' then do
            let (xs, rest) ← readEntries entry close fuel rest
            pure (x :: xs, rest)
          else none

structure Assignment where
  key : Key
  value : Toml

def readAssignment (skip : List Char → List Char) (value : List Char → Option (Toml × List Char))
    (cs : List Char) : Option (Assignment × List Char) := do
  let (key, rest) ← readKey cs
  match skip rest with
  | '=' :: rest => do
    let (v, rest) ← value (skip rest)
    pure (⟨key, v⟩, rest)
  | _ => none

/-- Whether a table of this origin may be entered on the way that a header (`made` is `nested`) or
a dotted key (`made` is `dotted`) takes. A table in braces is closed for good, and a dotted key does
not reach into a table that has its own header. -/
def Origin.mayEnter (made : Origin) (origin : Origin) : Bool :=
  match origin with
  | .inline => false
  | .header => made ≠ .dotted
  | .nested => true
  | .dotted => true

namespace Entries

/-- Changes the table at the end of a path, knowing its origin. Of a list of tables the path goes
on in the last one; a table that is not there yet is made with the origin `made`. -/
def change (made : Origin) (f : Origin → Entries → Option Entries) (origin : Origin) :
    List String → Entries → Option Entries
  | [], entries => f origin entries
  | key :: path, entries =>
    match entries.get? key with
    | none => do
      let inner ← change made f made path []
      pure (entries ++ [(key, .table made inner)])
    | some (.table o inner) =>
      if made.mayEnter o then do
        let inner ← change made f o path inner
        pure (entries.replace key (.table o inner))
      else none
    | some (.tables earlier last) => do
      let last ← change made f .header path last
      pure (entries.replace key (.tables earlier last))
    | some _ => none

/-- Makes an assignment. Dotted keys fill only tables that dotted keys have made. -/
def assign (entries : Entries) (assignment : Assignment) : Option Entries :=
  let key := assignment.key
  entries.change .dotted
    (fun origin table =>
      if key.path.isEmpty ∨ origin = .dotted then table.add? key.name assignment.value else none)
    .header key.path

end Entries

def readValue (fuel : Nat) : Nat → List Char → Option (Toml × List Char)
  | 0, '[' :: _ => none
  | 0, '{' :: _ => none
  | depth + 1, '[' :: rest => do
    let (items, rest) ← readEntries (readValue fuel depth) ']' fuel rest
    pure (.array items, rest)
  | depth + 1, '{' :: rest => do
    let (assignments, rest) ←
      readEntries (readAssignment (skipGaps false) (readValue fuel depth)) '}' fuel rest
    let entries ← assignments.foldlM Entries.assign []
    pure (.table .inline entries, rest)
  | _, cs => readScalar cs

end ActivityBoard.Toml
