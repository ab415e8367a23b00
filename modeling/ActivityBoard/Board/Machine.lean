import ActivityBoard.Board.Capacity
import ActivityBoard.Figure
import ActivityBoard.Rows
import ActivityBoard.Text

namespace ActivityBoard

structure CpuSummary where
  totals : CpuTotals
  busy : Figure

namespace CpuSummary

def ofTotals (totals : CpuTotals) (capacity : Capacity) : CpuSummary :=
  let busy := Capacity.ticks totals - Binary64.ofNat totals.times.idle -
    Binary64.ofNat totals.times.wait
  ⟨totals, ⟨busy / capacity.coreTicks * 100, 1⟩⟩

def toFields (c : CpuSummary) : Fields := c.totals.toFields.insert "cpubusy" c.busy.toJson

end CpuSummary

structure MemorySummary where
  stats : MemoryStats
  nodes : Nat

def MemorySummary.toFields (m : MemorySummary) : Fields :=
  m.stats.toFields.insert "numanode" (.int m.nodes)

structure PressureSummary where
  pressure : Pressure
  elapsed : Int

namespace PressureSummary

/-- The share of a stall. That it fills the interval is tested in percent, and what is stored for
less is a ten-thousandth of the quotient. -/
def ratio (total : Nat) (elapsed : Int) : Binary64 :=
  if elapsed = 0 then 0
  else
    let total := Binary64.ofNat total
    let elapsed := Binary64.ofInt elapsed
    if 100 < total / elapsed * 100 then 100 else total / (elapsed * 10000)

def averages (s : Stall) : String :=
  s.over10.toFixed 0 ++ "/" ++ s.over60.toFixed 0 ++ "/" ++ s.over300.toFixed 0

def toFields (p : PressureSummary) : Fields :=
  let ratioOf (s : Stall) : Json := Json.ofMetric (ratio s.total p.elapsed)
  p.pressure.toFields.insertAll [
    ("cpusome", ratioOf p.pressure.cpuSome),
    ("iosome", ratioOf p.pressure.ioSome),
    ("iofull", ratioOf p.pressure.ioFull),
    ("memsome", ratioOf p.pressure.memorySome),
    ("memfull", ratioOf p.pressure.memoryFull),
    ("cs", .str (averages p.pressure.cpuSome)),
    ("ms", .str (averages p.pressure.memorySome)),
    ("mf", .str (averages p.pressure.memoryFull)),
    ("is", .str (averages p.pressure.ioSome)),
    ("if", .str (averages p.pressure.ioFull))]

end PressureSummary

/-- How busy a block device was: milliseconds for one request, the share of the interval, and
megabytes read and written in a second. -/
structure DeviceRates where
  serviceTime : Figure
  busy : Figure
  readRate : Figure
  writeRate : Figure
deriving DecidableEq

namespace DeviceRates

/-- Megabytes in a second; a sector has 512 bytes. -/
def megabytes (sectors : Nat) (elapsed : Int) : Binary64 :=
  if elapsed = 0 then 0
  else Binary64.ofNat sectors / 2 / 1024 / Binary64.ofInt elapsed

def ofIo (io : DeviceIo) (coreMillis : Binary64) (elapsed : Int) : DeviceRates :=
  let requests := io.reads + io.writes
  let busyMillis := Binary64.ofNat io.busyMillis
  { serviceTime := ⟨if requests = 0 then 0 else busyMillis / Binary64.ofNat requests, 2⟩
    busy := ⟨if coreMillis.isZero then 0 else busyMillis / coreMillis, 2⟩
    readRate := ⟨megabytes io.sectorsRead elapsed, 1⟩
    writeRate := ⟨megabytes io.sectorsWritten elapsed, 1⟩ }

def entries (r : DeviceRates) (busyKey : String) : List (String × Json) :=
  [("avio", r.serviceTime.toJson), (busyKey, r.busy.toJson), ("MBr/s", r.readRate.toJson),
    ("MBw/s", r.writeRate.toJson)]

end DeviceRates

structure VolumeSummary where
  volume : LogicalVolume
  rates : DeviceRates

namespace VolumeSummary

/-- Names of volumes begin alike, so the end of the name is kept. -/
def ofVolume (volume : LogicalVolume) (coreMillis : Binary64) (elapsed : Int) : VolumeSummary :=
  ⟨{ volume with name := Text.last 10 volume.name },
    DeviceRates.ofIo volume.io coreMillis elapsed⟩

def toFields (v : VolumeSummary) : Fields :=
  (Fields.ofList (("lvmname", .str v.volume.name) :: v.volume.io.entries ++
    v.rates.entries "lvmbusy")).insertAll v.volume.extra

end VolumeSummary

structure DiskSummary where
  disk : Disk
  rates : DeviceRates

namespace DiskSummary

def ofDisk (disk : Disk) (coreMillis : Binary64) (elapsed : Int) : DiskSummary :=
  ⟨disk, DeviceRates.ofIo disk.io coreMillis elapsed⟩

def toFields (d : DiskSummary) : Fields :=
  (Fields.ofList (d.disk.io.entries ++ d.rates.entries "diskbusy")).insertAll d.disk.extra

def ranked (disks : List DiskSummary) : List DiskSummary :=
  ActivityBoard.ranked (·.disk.io.busyMillis) natLe disks

end DiskSummary

structure NumaNode where
  index : Nat
  fragmentation : Figure
  extra : Fields

namespace NumaNode

/-- The nodes numbered from zero; fragmentation that is no number shows as such. -/
def number (nodes : List NumaMemory) : List NumaNode :=
  nodes.zipIdx.map fun (node, index) =>
    ⟨index, ⟨node.fragmentation.value?.getD .nan, 2⟩, node.extra⟩

def toFields (n : NumaNode) : Fields :=
  (Fields.ofList [("numanodeId", .int n.index), ("frag", n.fragmentation.toJson)]).insertAll n.extra

end NumaNode

def CpuCore.ranked (cores : List CpuCore) : List CpuCore :=
  ActivityBoard.ranked (·.times.busy) natLe cores

def Interface.ranked (interfaces : List Interface) : List Interface :=
  ActivityBoard.ranked Interface.packets natLe interfaces

def CacheDomain.ranked (caches : List CacheDomain) : List CacheDomain :=
  ActivityBoard.ranked (·.occupancy.sortKey) Binary64.rankLe caches

end ActivityBoard
