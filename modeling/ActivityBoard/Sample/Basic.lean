import ActivityBoard.Sample.Machine
import ActivityBoard.Sample.Process

/-!
One sample of a machine's activity, read from JSON and written back. A list around a single sample
is an envelope and is opened once.
-/
namespace ActivityBoard

structure Sample where
  timestamp : Int
  elapsed : Int
  cpu : CpuTotals
  cores : List CpuCore
  load : Option Fields
  memory : Option MemoryStats
  pressure : Option Pressure
  volumes : List LogicalVolume
  disks : List Disk
  interfaces : List Interface
  numaMemory : List NumaMemory
  numaCpu : List Fields
  caches : List CacheDomain
  identities : List Identity
  cpuUse : List CpuUse
  memoryUse : List MemoryUse
  diskUse : List DiskUse
  extra : Fields

inductive SampleError where
  | notJson
  | wrongShape
  | envelope (count : Nat)
  | notAnObject
deriving DecidableEq

namespace SampleError

def message : SampleError → String
  | .notJson => "sample is not JSON"
  | .wrongShape => "sample has a section of the wrong shape"
  | .envelope count => "expected exactly one sample, got " ++ Nat.repr count
  | .notAnObject => "sample is not a JSON object"

end SampleError

namespace Sample

def keys : List String :=
  ["timestamp", "elapsed", "CPU", "cpu", "CPL", "MEM", "PSI", "LVM", "DSK", "NET", "NUM", "NUC",
    "LLC", "PRG", "PRC", "PRM", "PRD"]

def ofFields? (f : Fields) : Option Sample := do
  let cpu ← f.required? CpuTotals.ofFields "CPU"
  let cores ← f.rows? (fun row => some (CpuCore.ofFields row)) "cpu"
  let load ← f.section? id "CPL"
  let memory ← f.section? MemoryStats.ofFields "MEM"
  let pressure ← f.section? Pressure.ofFields "PSI"
  let volumes ← f.rows? LogicalVolume.ofFields? "LVM"
  let disks ← f.rows? (fun row => some (Disk.ofFields row)) "DSK"
  let interfaces ← f.rows? (fun row => some (Interface.ofFields row)) "NET"
  let numaMemory ← f.rows? NumaMemory.ofFields? "NUM"
  let numaCpu ← f.rows? some "NUC"
  let caches ← f.rows? CacheDomain.ofFields? "LLC"
  let identities ← f.rows? Identity.ofFields? "PRG"
  let cpuUse ← f.rows? (fun row => some (CpuUse.ofFields row)) "PRC"
  let memoryUse ← f.rows? (fun row => some (MemoryUse.ofFields row)) "PRM"
  let diskUse ← f.rows? (fun row => some (DiskUse.ofFields row)) "PRD"
  pure {
    timestamp := (f.value "timestamp").int64
    elapsed := (f.value "elapsed").int64
    cpu := cpu
    cores := cores
    load := load
    memory := memory
    pressure := pressure
    volumes := volumes
    disks := disks
    interfaces := interfaces
    numaMemory := numaMemory
    numaCpu := numaCpu
    caches := caches
    identities := identities
    cpuUse := cpuUse
    memoryUse := memoryUse
    diskUse := diskUse
    extra := f.without keys }

def ofJson (v : Json) : Except SampleError Sample := do
  let inner ← match v with
    | .arr [item] => pure item
    | .arr items => throw (.envelope items.length)
    | v => pure v
  match inner with
  | .obj fields =>
    match ofFields? fields with
    | some sample => pure sample
    | none => throw .wrongShape
  | _ => throw .notAnObject

def ofText (text : String) : Except SampleError Sample :=
  match Json.ofText? text with
  | some v => ofJson v
  | none => .error .notJson

def optional (key : String) (fields : Option Fields) : List (String × Json) :=
  match fields with
  | some fields => [(key, .obj fields)]
  | none => []

def rows {α : Type} (key : String) (toFields : α → Fields) (items : List α) : String × Json :=
  (key, .arr (items.map fun item => .obj (toFields item)))

def toJson (s : Sample) : Json :=
  .obj ((Fields.ofList (
    [("timestamp", .int s.timestamp), ("elapsed", .int s.elapsed), ("CPU", .obj s.cpu.toFields),
      rows "cpu" CpuCore.toFields s.cores] ++
    optional "CPL" s.load ++
    optional "MEM" (s.memory.map MemoryStats.toFields) ++
    optional "PSI" (s.pressure.map Pressure.toFields) ++
    [rows "LVM" LogicalVolume.toFields s.volumes, rows "DSK" Disk.toFields s.disks,
      rows "NET" Interface.toFields s.interfaces, rows "NUM" NumaMemory.toFields s.numaMemory,
      rows "NUC" id s.numaCpu, rows "LLC" CacheDomain.toFields s.caches,
      rows "PRG" Identity.toFields s.identities, rows "PRC" CpuUse.toFields s.cpuUse,
      rows "PRM" MemoryUse.toFields s.memoryUse, rows "PRD" DiskUse.toFields s.diskUse])).insertAll
    s.extra)

end Sample

end ActivityBoard
