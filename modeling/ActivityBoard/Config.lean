import ActivityBoard.Settings
import ActivityBoard.Toml.Document
import ActivityBoard.Text

/-!
The configuration file. It is read as a whole or not at all: a text that is not TOML, or a field of
the wrong type, leaves every default in force. Only row limits take any number, truth value or text.
-/
namespace ActivityBoard

structure Config where
  /-- Milliseconds from one refresh to the next. -/
  refreshPeriod : Nat := 2000
  sort : String := "cpu"
  onlyProcesses : Bool := true
  missing : String := "fail"
  limits : Limits := {}
deriving DecidableEq

namespace Config

def settings (c : Config) : Settings :=
  { limits := c.limits
    sort := SortMode.ofText c.sort
    onlyProcesses := c.onlyProcesses
    missing := MissingPolicy.ofText c.missing }

def greatest : Nat := 18446744073709551615

def limitOfFloat (x : Binary64) : Nat :=
  if x.isFinite then (x.toIntWithin 0 greatest).toNat else 0

/-- A row limit. What is negative, no number or a truth value is zero; an integer that 64 bits do
not hold is refused, as is every other kind of value. -/
def limit? : Toml → Option Nat
  | .integer n => if n < -9223372036854775808 ∨ (greatest : Int) < n then none else some n.toNat
  | .float x => some (limitOfFloat x)
  | .text s =>
    match Binary64.ofText? (Text.trim s.toList) with
    | some x => some (limitOfFloat x)
    | none => some 0
  | .boolean _ => some 0
  | _ => none

def count? : Toml → Option Nat
  | .integer n => if n < 0 ∨ (greatest : Int) < n then none else some n.toNat
  | _ => none

def text? : Toml → Option String
  | .text s => some s
  | _ => none

def boolean? : Toml → Option Bool
  | .boolean b => some b
  | _ => none

def field? {α : Type} (read : Toml → Option α) (entries : Toml.Entries) (key : String)
    (default : α) : Option α :=
  match entries.get? key with
  | none => some default
  | some v => read v

/-- The fields of a section: those of a table by name, those of an array by position. Fields of a
table that have no meaning are passed over, but their numbers must be representable. -/
def section? (keys : List String) : Toml → Option Toml.Entries
  | .table _ entries =>
    if entries.all fun entry => keys.contains entry.1 || entry.2.isRepresentable then some entries
    else none
  | .array items => some (keys.zip items)
  | .tables earlier last => some (keys.zip ((earlier ++ [last]).map (.table .header)))
  | .moment _ => some []
  | _ => none

def sectionOf? (entries : Toml.Entries) (key : String) (keys : List String) :
    Option Toml.Entries :=
  match entries.get? key with
  | none => some []
  | some v => section? keys v

def limitsOf? (entries : Toml.Entries) : Option Limits := do
  let processes ← field? limit? entries "processes" 200
  let cpu ← field? limit? entries "cpu" 0
  let lvm ← field? limit? entries "lvm" 4
  let disk ← field? limit? entries "disk" 1
  let interface ← field? limit? entries "interface" 2
  let numa ← field? limit? entries "numa" 0
  let llc ← field? limit? entries "llc" 0
  pure ⟨processes, cpu, lvm, disk, interface, numa, llc⟩

def ofEntries? (entries : Toml.Entries) : Option Config := do
  let _ ← section? ["general", "limits"] (.table .header entries)
  let general ←
    sectionOf? entries "general" ["refresh_rate_ms", "default_sort", "only_proc", "missing_entry"]
  let limits ←
    sectionOf? entries "limits" ["processes", "cpu", "lvm", "disk", "interface", "numa", "llc"]
  let refreshPeriod ← field? count? general "refresh_rate_ms" 2000
  let sort ← field? text? general "default_sort" "cpu"
  let onlyProcesses ← field? boolean? general "only_proc" true
  let missing ← field? text? general "missing_entry" "fail"
  let limits ← limitsOf? limits
  pure ⟨refreshPeriod, sort, onlyProcesses, missing, limits⟩

def ofText (text : String) : Config := ((Toml.ofText? text).bind ofEntries?).getD {}

end Config

end ActivityBoard
