import ActivityBoard.Board.Machine
import ActivityBoard.Display.Annotate
import ActivityBoard.Process.Join
import ActivityBoard.Sample.Basic

namespace ActivityBoard

structure Board where
  timestamp : Int
  elapsed : Int
  date : String
  cpu : CpuSummary
  cores : List CpuCore
  load : Option Fields
  memory : Option MemorySummary
  pressure : Option PressureSummary
  volumes : List VolumeSummary
  disks : List DiskSummary
  interfaces : List Interface
  numaMemory : List NumaNode
  numaCpu : List Fields
  caches : List CacheDomain
  capacity : Capacity
  processes : Processes
  extra : Fields

namespace Board

def ofSample (s : Sample) (settings : Settings) : Except MissingEntry Board := do
  let capacity := Capacity.ofSample s.cpu s.memory
  let limits := settings.limits
  let tables : ProcessTables := ⟨s.identities, s.cpuUse, s.memoryUse, s.diskUse⟩
  let processes ← tables.join capacity settings
  pure {
    timestamp := s.timestamp
    elapsed := s.elapsed
    date := Calendar.dateText s.timestamp (settings.zone.offset s.timestamp)
    cpu := CpuSummary.ofTotals s.cpu capacity
    cores := (CpuCore.ranked s.cores).take limits.cpu
    load := s.load.map fun fields => fields.insert "nrcpu" (.int s.cpu.cores)
    memory := s.memory.map fun stats => ⟨stats, s.numaMemory.length⟩
    pressure := s.pressure.map fun pressure => ⟨pressure, s.elapsed⟩
    volumes := (s.volumes.map fun volume =>
      VolumeSummary.ofVolume volume capacity.coreMillis s.elapsed).take limits.lvm
    disks := (DiskSummary.ranked (s.disks.map fun disk =>
      DiskSummary.ofDisk disk capacity.coreMillis s.elapsed)).take limits.disk
    interfaces := (Interface.ranked s.interfaces).take limits.interface
    numaMemory := (NumaNode.number s.numaMemory).take limits.numa
    numaCpu := s.numaCpu.take limits.numa
    caches := (CacheDomain.ranked s.caches).take limits.llc
    capacity := capacity
    processes := processes
    extra := s.extra }

/-- The board as a document. A passed-through field stands where both have the key. -/
def toJson (b : Board) : Json :=
  .obj ((Fields.ofList (
    [("timestamp", .int b.timestamp), ("elapsed", .int b.elapsed), ("date", .str b.date),
      ("CPU", .obj b.cpu.toFields), Sample.rows "cpu" CpuCore.toFields b.cores] ++
    Sample.optional "CPL" b.load ++
    Sample.optional "MEM" (b.memory.map MemorySummary.toFields) ++
    Sample.optional "PSI" (b.pressure.map PressureSummary.toFields) ++
    [Sample.rows "LVM" VolumeSummary.toFields b.volumes,
      Sample.rows "DSK" DiskSummary.toFields b.disks,
      Sample.rows "NET" Interface.toFields b.interfaces,
      Sample.rows "NUM" NumaNode.toFields b.numaMemory,
      Sample.rows "NUC" id b.numaCpu,
      Sample.rows "LLC" CacheDomain.toFields b.caches,
      ("EXTRA", .obj b.capacity.toFields),
      ("HPRC", .obj b.processes.summary.toFields),
      Sample.rows "PRSUMMARY" ProcessRecord.toFields b.processes.records])).insertAll b.extra)

def context (b : Board) : Display.Context := ⟨b.capacity.coreTicks, b.cpu.totals.hertz⟩

def annotated (b : Board) : Json × List Display.FieldError :=
  Display.annotate b.context b.toJson

end Board

inductive BoardError where
  | sample (error : SampleError)
  | join (error : MissingEntry)
deriving DecidableEq

namespace BoardError

def message : BoardError → String
  | .sample e => e.message
  | .join e => "process join failed: " ++ e.message

end BoardError

def Board.ofText (text : String) (settings : Settings) : Except BoardError Board :=
  match Sample.ofText text with
  | .error e => .error (.sample e)
  | .ok sample =>
    match Board.ofSample sample settings with
    | .error e => .error (.join e)
    | .ok board => .ok board

end ActivityBoard
