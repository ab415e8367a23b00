import ActivityBoard.Board.Capacity
import ActivityBoard.Process.Summary

/-!
Joining the four process tables on the pid. The identity table says which processes there are; every
one of them is looked up in the other tables, threads that are then left out included.
-/
namespace ActivityBoard

inductive UseTable where
  | cpu
  | memory
  | disk
deriving DecidableEq

def UseTable.label : UseTable → String
  | .cpu => "PRC"
  | .memory => "PRM"
  | .disk => "PRD"

structure MissingEntry where
  pid : Nat
  table : UseTable
deriving DecidableEq

def MissingEntry.message (e : MissingEntry) : String :=
  "pid " ++ Nat.repr e.pid ++ " has no " ++ e.table.label ++ " entry"

structure ProcessTables where
  identities : List Identity
  cpu : List CpuUse
  memory : List MemoryUse
  disk : List DiskUse

structure Processes where
  records : List ProcessRecord
  summary : ProcessSummary

namespace ProcessTables

/-- Sectors that all listed processes moved. -/
def transferred (t : ProcessTables) : Int :=
  (Table.distinct DiskUse.pid t.disk).foldr (fun d sum => d.transferred + sum) 0

/-- The row of a pid, which may only be missing under the lenient policy. -/
def lookup {α : Type} (policy : MissingPolicy) (table : UseTable) (pid : α → Nat) (rows : List α)
    (absent : Nat → α) (p : Nat) : Except MissingEntry α :=
  match Table.latest? pid rows p, policy with
  | some row, _ => .ok row
  | none, .fail => .error ⟨p, table⟩
  | none, .empty => .ok (absent p)

/-- A part of a whole in percent; no part of nothing. -/
def share (part whole : Binary64) : Figure :=
  if whole.isZero then ⟨0, 1⟩ else Figure.cappedPercent (part * 100 / whole) 1

def record (capacity : Capacity) (transferred : Int) (g : Identity) (c : CpuUse) (m : MemoryUse)
    (d : DiskUse) : ProcessRecord where
  identity := g
  cpu := c
  memory := m.scaled 1024
  disk := d.scaled 512
  cpuBusy :=
    if capacity.coreTicks.isZero then ⟨0, 1⟩
    else ⟨Binary64.ofNat c.busy / capacity.coreTicks * 100, 1⟩
  memoryBusy := share (Binary64.ofInt m.resident) capacity.memory
  diskBusy := share (Binary64.ofInt d.transferred) (Binary64.ofInt transferred)

def recordOf (t : ProcessTables) (capacity : Capacity) (policy : MissingPolicy) (g : Identity) :
    Except MissingEntry ProcessRecord := do
  let c ← lookup policy .cpu CpuUse.pid t.cpu CpuUse.none g.pid
  let m ← lookup policy .memory MemoryUse.pid t.memory MemoryUse.none g.pid
  let d ← lookup policy .disk DiskUse.pid t.disk DiskUse.none g.pid
  pure (record capacity t.transferred g c m d)

def records (t : ProcessTables) (capacity : Capacity) (policy : MissingPolicy) :
    Except MissingEntry (List ProcessRecord) :=
  (Table.distinct Identity.pid t.identities).mapM (t.recordOf capacity policy)

def join (t : ProcessTables) (capacity : Capacity) (settings : Settings) :
    Except MissingEntry Processes := do
  let all ← t.records capacity settings.missing
  let chosen := all.filter fun r => r.identity.leads || !settings.onlyProcesses
  pure {
    records := (ProcessRecord.ranked settings.sort chosen).take settings.limits.processes
    summary := ProcessSummary.tally (Table.distinct Identity.pid t.identities) chosen }

end ProcessTables

end ActivityBoard
