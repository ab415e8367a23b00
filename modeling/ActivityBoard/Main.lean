import ActivityBoard.CommandLine.Run

/-!
The program: it reads the files that its arguments name and prints what `run?` says, with times in
UTC. A watch reads its file anew for every refresh.
-/
namespace ActivityBoard

def readText (path : String) : IO (Option String) := do
  try
    pure (some (← IO.FS.readFile path))
  catch _ => pure none

def configDirectory : IO (Option String) := do
  match ← IO.getEnv "XDG_CONFIG_HOME" with
  | some directory =>
    if directory.startsWith "/" then pure (some directory) else homeDirectory
  | none => homeDirectory
where
  homeDirectory : IO (Option String) := do
    pure ((← IO.getEnv "HOME").map fun home => home ++ "/.config")

/-- The configuration file that counts if no other is named; its directory has the name of the
program. -/
def readDefaultConfig : IO (Option String) := do
  let program := (← IO.appPath).fileStem.getD "board"
  match ← configDirectory with
  | some directory => readText (directory ++ "/" ++ program ++ "/config.toml")
  | none => pure none

partial def watch (file : String) (limit : Option Nat) (period : Nat) (w : Watch) : IO Unit := do
  let fetched := match ← readText file with
    | some text => Fetched.text text
    | none => .failed .unreadable
  let next := { w with lines := [] }.refresh fetched
  next.lines.forM IO.println
  (← IO.getStdout).flush
  if next.isOver limit then return
  IO.sleep (UInt32.ofNat (min period 4294967295))
  watch file limit period next

def execute (invocation : Invocation) : IO UInt32 := do
  let named ← match invocation.overrides.config with
    | some path => readText path
    | none => readDefaultConfig
  let surroundings : Surroundings :=
    { file := fun _ => named, defaultConfig := named, standardInput := "" }
  let settings := surroundings.settings invocation.overrides
  match invocation.command with
  | .normalize file annotate pretty =>
    let text ← match file with
      | some path => readText path
      | none => some <$> (← IO.getStdin).readToEnd
    let outcome := Outcome.ofSample settings annotate pretty text
    IO.print outcome.output
    pure (UInt32.ofNat outcome.exitCode)
  | .watch file limit =>
    let period := (surroundings.config invocation.overrides).refreshPeriod
    watch file limit (max 1 period) (Watch.start settings)
    pure 0

end ActivityBoard

def main (args : List String) : IO UInt32 := do
  match ActivityBoard.Invocation.ofArguments? args with
  | none => pure 2
  | some invocation => ActivityBoard.execute invocation
