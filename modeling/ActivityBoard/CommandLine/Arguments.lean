import ActivityBoard.Config

/-!
The arguments of the program. Options that hold for every command stand before or behind its name,
the later one counting; what the arguments ask for is an `Invocation`, and arguments that make no
sense have none.
-/
namespace ActivityBoard

inductive Given where
  | config (path : String)
  | sort (name : String)
  | processes (count : Nat)
  | allThreads
  | refreshRate (period : Nat)
  | logJson
  | verbose
  | annotate
  | pretty
  | ticks (count : Nat)
deriving DecidableEq

namespace Given

def name : Given → String
  | .config _ => "config"
  | .sort _ => "sort"
  | .processes _ => "procs"
  | .allThreads => "all-threads"
  | .refreshRate _ => "refresh-rate"
  | .logJson => "log-json"
  | .verbose => "verbose"
  | .annotate => "annotate"
  | .pretty => "pretty"
  | .ticks _ => "ticks"

def count? (text : String) : Option Nat :=
  let digits := match text.toList with
    | '+' :: rest => rest
    | cs => cs
  if digits.isEmpty || !digits.all Char.isDigit then none
  else
    let n := Nat.ofDigitChars 10 digits 0
    if n ≤ Config.greatest then some n else none

def ofName? : String → Option Given
  | "all-threads" => some .allThreads
  | "log-json" => some .logJson
  | "verbose" => some .verbose
  | "annotate" => some .annotate
  | "pretty" => some .pretty
  | _ => none

def takesValue (name : String) : Bool :=
  ["config", "sort", "procs", "refresh-rate", "ticks"].contains name

def ofValue? (name value : String) : Option Given :=
  match name with
  | "config" => if value.isEmpty then none else some (.config value)
  | "sort" => some (.sort value)
  | "procs" => (count? value).map .processes
  | "refresh-rate" => (count? value).map .refreshRate
  | "ticks" => (count? value).map .ticks
  | _ => none

def common : List String :=
  ["config", "sort", "procs", "all-threads", "refresh-rate", "log-json", "verbose"]

/-- Whether no option is given twice, but for the one that counts. -/
def areDistinct : List Given → Bool
  | [] => true
  | g :: rest => (g = .verbose || rest.all fun h => h.name ≠ g.name) && areDistinct rest

end Given

inductive Argument where
  /-- Two dashes: only words follow. -/
  | divider
  | long (name : String) (value : Option String)
  | short (letters : List Char)
  | word (text : String)

def Argument.ofText (s : String) : Argument :=
  match s.toList with
  | ['-', '-'] => .divider
  | '-' :: '-' :: cs =>
    .long (String.ofList (cs.takeWhile (· ≠ '=')))
      (match cs.dropWhile (· ≠ '=') with
        | [] => none
        | _ :: value => some (String.ofList value))
  | '-' :: c :: cs => .short (c :: cs)
  | _ => .word s

/-- Reads options up to a word or a divider, and gives the rest from there on. -/
def readOptions (allowed : List String) : List String → Option (List Given × List String)
  | [] => some ([], [])
  | arg :: rest =>
    match Argument.ofText arg with
    | .divider => some ([], arg :: rest)
    | .word _ => some ([], arg :: rest)
    | .short letters =>
      if letters.all (· = 'v') then
        (readOptions allowed rest).map fun (gs, rest) =>
          (letters.map (fun _ => .verbose) ++ gs, rest)
      else none
    | .long name value =>
      if !allowed.contains name then none
      else if Given.takesValue name then
        match value, rest with
        | some v, rest => do
          let g ← Given.ofValue? name v
          let (gs, rest) ← readOptions allowed rest
          pure (g :: gs, rest)
        | none, [] => none
        | none, next :: rest =>
          match Argument.ofText next with
          | .word v => do
            let g ← Given.ofValue? name v
            let (gs, rest) ← readOptions allowed rest
            pure (g :: gs, rest)
          | _ => none
      else if value.isSome then none
      else do
        let g ← Given.ofName? name
        let (gs, rest) ← readOptions allowed rest
        pure (g :: gs, rest)

def readCommand (allowed : List String) (args : List String) :
    Option (List Given × Option String) := do
  let (before, rest) ← readOptions allowed args
  match rest with
  | [] => pure (before, none)
  | ["--"] => pure (before, none)
  | ["--", word] => pure (before, some word)
  | "--" :: _ => none
  | word :: rest => do
    let (behind, rest) ← readOptions allowed rest
    if rest = [] ∨ rest = ["--"] then pure (before ++ behind, some word) else none

inductive Command where
  | normalize (file : Option String) (annotate pretty : Bool)
  | watch (file : String) (ticks : Option Nat)
deriving DecidableEq

structure Overrides where
  config : Option String := none
  sort : Option String := none
  processes : Option Nat := none
  allThreads : Bool := false
  refreshPeriod : Option Nat := none
deriving DecidableEq

namespace Overrides

def take (o : Overrides) : Given → Overrides
  | .config path => { o with config := some path }
  | .sort name => { o with sort := some name }
  | .processes count => { o with processes := some count }
  | .allThreads => { o with allThreads := true }
  | .refreshRate period => { o with refreshPeriod := some period }
  | _ => o

def apply (o : Overrides) (c : Config) : Config :=
  { refreshPeriod := o.refreshPeriod.getD c.refreshPeriod
    sort := o.sort.getD c.sort
    onlyProcesses := c.onlyProcesses && !o.allThreads
    missing := c.missing
    limits := { c.limits with processes := o.processes.getD c.limits.processes } }

end Overrides

structure Invocation where
  overrides : Overrides
  command : Command
deriving DecidableEq

namespace Invocation

def ticks? (given : List Given) : Option Nat :=
  given.findSome? fun
    | .ticks count => some count
    | _ => none

def ownOptions : String → List String
  | "normalize" => ["annotate", "pretty"]
  | "watch" => ["ticks"]
  | _ => []

/-- The command of this name; a file name is never empty. -/
def command? (name : String) (given : List Given) (file : Option String) : Option Command :=
  if file = some "" then none
  else
    match name, file with
    | "normalize", file =>
      some (.normalize file (given.contains .annotate) (given.contains .pretty))
    | "watch", some file => some (.watch file (ticks? given))
    | _, _ => none

def ofArguments? (args : List String) : Option Invocation := do
  let (shared, rest) ← readOptions Given.common args
  match rest with
  | [] => none
  | name :: rest => do
    let (own, file) ← readCommand (Given.common ++ ownOptions name) rest
    let command ← command? name own file
    if Given.areDistinct shared && Given.areDistinct own then
      pure ⟨(shared ++ own).foldl Overrides.take {}, command⟩
    else none

end Invocation

end ActivityBoard
