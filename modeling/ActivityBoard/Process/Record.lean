import ActivityBoard.Figure
import ActivityBoard.Rows
import ActivityBoard.Sample.Process
import ActivityBoard.Settings
import ActivityBoard.Text

/-!
A process on the board: its rows of the four tables, sizes in bytes, and its shares of the machine.
-/
namespace ActivityBoard

structure ProcessRecord where
  identity : Identity
  cpu : CpuUse
  memory : MemoryUse
  disk : DiskUse
  cpuBusy : Figure
  memoryBusy : Figure
  diskBusy : Figure

namespace ProcessRecord

def withoutBrackets (s : String) : String :=
  String.ofList (s.toList.filter fun c => c != '(' && c != ')')

def name (r : ProcessRecord) : String := Text.first 15 (withoutBrackets r.identity.name)

def commandLine (r : ProcessRecord) : String :=
  let line := withoutBrackets r.identity.commandLine
  if line = "" then r.name else line

def dash (meaningful : Bool) (n : Int) : Json := if meaningful then .int n else .str "-"

/-- The unknown fields of the four rows; of a repeated key the one of the later table counts. -/
def extra (r : ProcessRecord) : Fields :=
  ((r.cpu.extra.insertAll r.memory.extra).insertAll r.disk.extra).insertAll r.identity.extra

def entries (r : ProcessRecord) : List (String × Json) :=
  let g := r.identity
  [("pid", .int g.pid), ("name", .str r.name), ("cmdline", .str r.commandLine),
    ("state", .str g.state), ("tgid", .int g.group), ("tid", dash (!g.leads) g.group),
    ("isproc", .int g.isProcess), ("nthr", .int g.threads), ("nthrrun", .int g.running),
    ("nthrslpi", .int g.sleeping), ("nthrslpu", .int g.blocked),
    ("exitcode", dash (g.exitCode != 0) g.exitCode), ("utime", .int r.cpu.user),
    ("stime", .int r.cpu.system), ("utime_unit_time", .int r.cpu.user),
    ("stime_unit_time", .int r.cpu.system), ("curcpu", dash (r.cpu.core != 0) r.cpu.core),
    ("cpubusy", r.cpuBusy.toJson), ("membusy", r.memoryBusy.toJson),
    ("diskbusy", r.diskBusy.toJson)] ++
  r.memory.sizes.map (fun (key, n) => (key, .int n)) ++
  r.disk.counters.map (fun (key, n) => (key, .int n))

def toFields (r : ProcessRecord) : Fields := (Fields.ofList r.entries).insertAll r.extra

def cpuTicks (r : ProcessRecord) : Nat := r.cpu.system + r.cpu.user

/-- Read requests and the bytes written without those cancelled. -/
def diskRank (r : ProcessRecord) : Int :=
  if r.disk.cancelled < r.disk.writeSize then
    r.disk.reads + r.disk.writeSize - r.disk.cancelled
  else r.disk.reads

def ranked (mode : SortMode) (records : List ProcessRecord) : List ProcessRecord :=
  match mode with
  | .cpu => ActivityBoard.ranked cpuTicks natLe records
  | .memory => ActivityBoard.ranked (·.memory.resident) intLe records
  | .disk => ActivityBoard.ranked (fun r => (r.diskRank, r.cpuTicks)) pairLe records

end ProcessRecord

end ActivityBoard
