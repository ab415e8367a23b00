import ActivityBoard.Board.Basic
import ActivityBoard.Gate

/-!
A dashboard keeps the latest board and refreshes it from a source. Refreshes run one at a time
through a gate, and only one that succeeds replaces the latest board. A refresh advances when it is
polled, so a run is a list of steps.
-/
namespace ActivityBoard

inductive SourceError where
  | unavailable (reason : String)
  | unreadable
deriving DecidableEq

def SourceError.message : SourceError → String
  | .unavailable reason => "sample source unavailable: " ++ reason
  | .unreadable => "failed to read sample"

inductive RefreshError where
  | source (error : SourceError)
  | board (error : BoardError)
  | noSample
deriving DecidableEq

def RefreshError.message : RefreshError → String
  | .source e => e.message
  | .board e => e.message
  | .noSample => "no sample loaded yet"

inductive Fetched where
  | text (raw : String)
  | failed (error : SourceError)
deriving DecidableEq

/-- A fetch that is pending for some polls, or for ever. -/
structure Response where
  result : Fetched
  delay : Option Nat
deriving DecidableEq

/-- Which sample a refresh is to show: that of a time, the most recent one, or the one so many seconds
from the latest board. -/
inductive Target where
  | at (timestamp : Option Int)
  | relative (delta : Int)
deriving DecidableEq

inductive Stage where
  | created (target : Target)
  | queued (request : Option Int)
  | fetching (response : Response)
deriving DecidableEq

/-- Who asks for the gate: a refresh, or a caller who just holds it. -/
inductive Client (ι : Type) where
  | refresh (name : ι)
  | hold (name : ι)
deriving DecidableEq

structure Dashboard (ι : Type) where
  settings : Settings
  gate : Gate (Client ι)
  latest : Option Board
  refreshes : List (ι × Stage)
  script : List Response
  /-- The times that were asked of the source, in order. -/
  requests : List (Option Int)

namespace Dashboard

inductive Progress where
  | unknown
  | pending
  | finished (outcome : Except RefreshError Board)

variable {ι : Type} [DecidableEq ι]

def new (settings : Settings) (script : List Response) : Dashboard ι :=
  ⟨settings, Gate.idle, none, [], script, []⟩

def lastTimestamp (d : Dashboard ι) : Option Int := d.latest.map Board.timestamp

def stage? (d : Dashboard ι) (i : ι) : Option Stage := d.refreshes.lookup i

def enter (d : Dashboard ι) (i : ι) (stage : Stage) : Dashboard ι :=
  { d with refreshes := (i, stage) :: d.refreshes.filter fun entry => entry.1 ≠ i }

def leave (d : Dashboard ι) (i : ι) : Dashboard ι :=
  { d with
    refreshes := d.refreshes.filter fun entry => entry.1 ≠ i
    gate := (d.gate.drop (.refresh i)).1 }

def exhausted : Response := ⟨.failed (.unavailable "script exhausted"), some 0⟩

def outcome (settings : Settings) : Fetched → Except RefreshError Board
  | .failed e => .error (.source e)
  | .text raw =>
    match Board.ofText raw settings with
    | .error e => .error (.board e)
    | .ok board => .ok board

def finish (d : Dashboard ι) (i : ι) (result : Fetched) : Dashboard ι × Progress :=
  let outcome := outcome d.settings result
  let latest := match outcome with
    | .ok board => some board
    | .error _ => d.latest
  ({ d with latest := latest }.leave i, .finished outcome)

def advance (d : Dashboard ι) (i : ι) (response : Response) : Dashboard ι × Progress :=
  match response.delay with
  | none => (d.enter i (.fetching response), .pending)
  | some 0 => d.finish i response.result
  | some (n + 1) => (d.enter i (.fetching { response with delay := some n }), .pending)

def fetch (d : Dashboard ι) (i : ι) (request : Option Int) : Dashboard ι × Progress :=
  let d := { d with requests := d.requests ++ [request] }
  match d.script with
  | [] => d.advance i exhausted
  | response :: rest => { d with script := rest }.advance i response

def approach (d : Dashboard ι) (i : ι) (request : Option Int) : Dashboard ι × Progress :=
  let (gate, result) := d.gate.poll (.refresh i)
  let d := { d with gate := gate }
  match result with
  | .admitted => d.fetch i request
  | _ => (d.enter i (.queued request), .pending)

def begin (d : Dashboard ι) (i : ι) (request : Option Int) : Dashboard ι × Progress :=
  { d with gate := d.gate.create (.refresh i) }.approach i request

/-- Polls a refresh once. A relative one takes its base at its first poll, before the gate. -/
def poll (d : Dashboard ι) (i : ι) : Dashboard ι × Progress :=
  match d.stage? i with
  | none => (d, .unknown)
  | some (.created (.at timestamp)) => d.begin i timestamp
  | some (.created (.relative delta)) =>
    match d.lastTimestamp with
    | none => (d.leave i, .finished (.error .noSample))
    | some base => d.begin i (some (base + delta))
  | some (.queued request) => d.approach i request
  | some (.fetching response) => d.advance i response

def create (d : Dashboard ι) (i : ι) (target : Target) : Dashboard ι :=
  (d.leave i).enter i (.created target)

inductive Step (ι : Type) where
  | create (name : ι) (target : Target)
  | poll (name : ι)
  | cancel (name : ι)
  | hold (name : ι)
  | release (name : ι)
  | configure (settings : Settings)
  | latest
deriving DecidableEq

inductive Reply where
  | created
  | progress (progress : Progress)
  | cancelled
  | held
  | refused
  | released
  | unknown
  | configured (settings : Settings)
  | latest (board : Option Board)

def step (d : Dashboard ι) : Step ι → Dashboard ι × Reply
  | .create i target => (d.create i target, .created)
  | .poll i =>
    let (d, progress) := d.poll i
    (d, .progress progress)
  | .cancel i =>
    match d.stage? i with
    | none => (d, .unknown)
    | some _ => (d.leave i, .cancelled)
  | .hold i =>
    match d.gate.tryTake (.hold i) with
    | (gate, true) => ({ d with gate := gate }, .held)
    | (gate, false) => ({ d with gate := gate }, .refused)
  | .release i =>
    match d.gate.drop (.hold i) with
    | (gate, .released) => ({ d with gate := gate }, .released)
    | _ => (d, .unknown)
  | .configure settings => ({ d with settings := settings }, .configured settings)
  | .latest => (d, .latest d.latest)

def run (d : Dashboard ι) (steps : List (Step ι)) : Dashboard ι :=
  steps.foldl (fun d s => (d.step s).1) d

/-- One refresh from its creation on, polled once while the source answers `result` at once. -/
def refreshNow (d : Dashboard ι) (i : ι) (target : Target) (result : Fetched) :
    Dashboard ι × Progress :=
  ({ d with script := [⟨result, some 0⟩] }.create i target).poll i

end Dashboard

end ActivityBoard
