import ActivityBoard.CommandLine.Arguments
import ActivityBoard.Json.Printer
import ActivityBoard.Watch

/-!
Runs of the program: what is printed, and the exit code. Nothing is printed unless the run succeeds.
-/
namespace ActivityBoard

structure Outcome where
  exitCode : Nat
  output : String
deriving DecidableEq

namespace Outcome

def misuse : Outcome := ⟨2, ""⟩

def failure : Outcome := ⟨1, ""⟩

def success (output : String) : Outcome := ⟨0, output⟩

end Outcome

structure Surroundings where
  file : String → Option String
  /-- The configuration file that counts if no other is named. -/
  defaultConfig : Option String
  standardInput : String
  zone : Calendar.Zone := {}

namespace Surroundings

/-- The configuration of a run. A file that is named but cannot be read means the defaults. -/
def config (s : Surroundings) (o : Overrides) : Config :=
  let text := match o.config with
    | some path => s.file path
    | none => s.defaultConfig
  o.apply (match text with
    | some text => Config.ofText text
    | none => {})

def settings (s : Surroundings) (o : Overrides) : Settings :=
  { (s.config o).settings with zone := s.zone }

def sample (s : Surroundings) : Option String → Option String
  | some path => s.file path
  | none => some s.standardInput

def fetch (s : Surroundings) (path : String) : Fetched :=
  match s.file path with
  | some text => .text text
  | none => .failed .unreadable

end Surroundings

def Board.printed (annotate pretty : Bool) (b : Board) : String :=
  let document := if annotate then b.annotated.1 else b.toJson
  (if pretty then document.pretty else document.compact) ++ "\n"

namespace Outcome

def ofSample (settings : Settings) (annotate pretty : Bool) (text : Option String) : Outcome :=
  match text with
  | none => failure
  | some text =>
    match Board.ofText text settings with
    | .error _ => failure
    | .ok board => success (board.printed annotate pretty)

def ofWatch (w : Watch) : Outcome := success (String.join (w.lines.map (· ++ "\n")))

end Outcome

/-- The run that the arguments ask for; a watch without a limit has no end. -/
def run? (s : Surroundings) (args : List String) : Option Outcome :=
  match Invocation.ofArguments? args with
  | none => some .misuse
  | some invocation =>
    let settings := s.settings invocation.overrides
    match invocation.command with
    | .normalize file annotate pretty =>
      some (.ofSample settings annotate pretty (s.sample file))
    | .watch file (some limit) =>
      some (.ofWatch ((Watch.start settings).run (fun _ => s.fetch file) limit))
    | .watch _ none => none

end ActivityBoard
