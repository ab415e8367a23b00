import ActivityBoard.Sample.Fields

namespace ActivityBoard

/-- Where processor time went, in clock ticks. -/
structure CpuTimes where
  system : Nat
  user : Nat
  nice : Nat
  idle : Nat
  wait : Nat
  interrupt : Nat
  softInterrupt : Nat
  steal : Nat
deriving DecidableEq

namespace CpuTimes

def keys : List String :=
  ["stime", "utime", "ntime", "itime", "wtime", "Itime", "Stime", "steal"]

def ofFields (f : Fields) : CpuTimes where
  system := (f.value "stime").count64
  user := (f.value "utime").count64
  nice := (f.value "ntime").count64
  idle := (f.value "itime").count64
  wait := (f.value "wtime").count64
  interrupt := (f.value "Itime").count64
  softInterrupt := (f.value "Stime").count64
  steal := (f.value "steal").count64

def entries (t : CpuTimes) : List (String × Json) :=
  [("stime", .int t.system), ("utime", .int t.user), ("ntime", .int t.nice),
    ("itime", .int t.idle), ("wtime", .int t.wait), ("Itime", .int t.interrupt),
    ("Stime", .int t.softInterrupt), ("steal", .int t.steal)]

def total (t : CpuTimes) : Nat :=
  t.system + t.user + t.nice + t.idle + t.wait + t.interrupt + t.softInterrupt + t.steal

def busy (t : CpuTimes) : Nat := t.user + t.system

end CpuTimes

structure CpuTotals where
  hertz : Nat
  cores : Nat
  times : CpuTimes
  extra : Fields

namespace CpuTotals

def ofFields (f : Fields) : CpuTotals where
  hertz := (f.value "hertz").count64
  cores := (f.value "nrcpu").count64
  times := CpuTimes.ofFields f
  extra := f.without ("hertz" :: "nrcpu" :: CpuTimes.keys)

def toFields (c : CpuTotals) : Fields :=
  (Fields.ofList (("hertz", .int c.hertz) :: ("nrcpu", .int c.cores) :: c.times.entries)).insertAll
    c.extra

end CpuTotals

structure CpuCore where
  times : CpuTimes
  extra : Fields

namespace CpuCore

def ofFields (f : Fields) : CpuCore where
  times := CpuTimes.ofFields f
  extra := f.without CpuTimes.keys

def toFields (c : CpuCore) : Fields := (Fields.ofList c.times.entries).insertAll c.extra

end CpuCore

/-- Memory; `physical` is in kilobytes. -/
structure MemoryStats where
  physical : Nat
  extra : Fields

namespace MemoryStats

def ofFields (f : Fields) : MemoryStats where
  physical := (f.value "physmem").count64
  extra := f.without ["physmem"]

def toFields (m : MemoryStats) : Fields :=
  (Fields.ofList [("physmem", .int m.physical)]).insertAll m.extra

end MemoryStats

/-- How long work stalled on a resource: averages over 10, 60 and 300 seconds, and a running total
in microseconds. -/
structure Stall where
  over10 : Binary64
  over60 : Binary64
  over300 : Binary64
  total : Nat
deriving DecidableEq

namespace Stall

def keys (name : String) : List String := [name ++ "10", name ++ "60", name ++ "300", name ++ "tot"]

def ofFields (name : String) (f : Fields) : Stall where
  over10 := (f.value (name ++ "10")).real
  over60 := (f.value (name ++ "60")).real
  over300 := (f.value (name ++ "300")).real
  total := (f.value (name ++ "tot")).count64

def entries (name : String) (s : Stall) : List (String × Json) :=
  [(name ++ "10", Json.ofFloat s.over10), (name ++ "60", Json.ofFloat s.over60),
    (name ++ "300", Json.ofFloat s.over300), (name ++ "tot", .int s.total)]

end Stall

/-- Pressure on processor, memory and disk; `some` is the time in which any task stalled, `full`
the time in which all did. -/
structure Pressure where
  cpuSome : Stall
  memorySome : Stall
  memoryFull : Stall
  ioSome : Stall
  ioFull : Stall
  extra : Fields

namespace Pressure

def keys : List String :=
  Stall.keys "cs" ++ Stall.keys "ms" ++ Stall.keys "mf" ++ Stall.keys "ios" ++ Stall.keys "iof"

def ofFields (f : Fields) : Pressure where
  cpuSome := Stall.ofFields "cs" f
  memorySome := Stall.ofFields "ms" f
  memoryFull := Stall.ofFields "mf" f
  ioSome := Stall.ofFields "ios" f
  ioFull := Stall.ofFields "iof" f
  extra := f.without keys

def toFields (p : Pressure) : Fields :=
  (Fields.ofList (p.cpuSome.entries "cs" ++ p.memorySome.entries "ms" ++
    p.memoryFull.entries "mf" ++ p.ioSome.entries "ios" ++
    p.ioFull.entries "iof")).insertAll p.extra

end Pressure

structure DeviceIo where
  busyMillis : Nat
  reads : Nat
  sectorsRead : Nat
  writes : Nat
  sectorsWritten : Nat
deriving DecidableEq

namespace DeviceIo

def keys : List String := ["io_ms", "nread", "nrsect", "nwrite", "nwsect"]

def ofFields (f : Fields) : DeviceIo where
  busyMillis := (f.value "io_ms").count64
  reads := (f.value "nread").count64
  sectorsRead := (f.value "nrsect").count64
  writes := (f.value "nwrite").count64
  sectorsWritten := (f.value "nwsect").count64

def shape : Json.RowShape := { keys := keys, isOpen := false }

def reader : Json.Reader DeviceIo := shape.fields.decode fun f => some (ofFields f)

def entries (d : DeviceIo) : List (String × Json) :=
  [("io_ms", .int d.busyMillis), ("nread", .int d.reads), ("nrsect", .int d.sectorsRead),
    ("nwrite", .int d.writes), ("nwsect", .int d.sectorsWritten)]

end DeviceIo

structure LogicalVolume where
  name : String
  io : DeviceIo
  extra : Fields

namespace LogicalVolume

def ofFields? (f : Fields) : Option LogicalVolume :=
  (f.text? "lvmname").map fun name =>
    ⟨name, DeviceIo.ofFields f, f.without ("lvmname" :: DeviceIo.keys)⟩

def toFields (v : LogicalVolume) : Fields :=
  (Fields.ofList (("lvmname", .str v.name) :: v.io.entries)).insertAll v.extra

end LogicalVolume

structure Disk where
  io : DeviceIo
  extra : Fields

namespace Disk

def ofFields (f : Fields) : Disk := ⟨DeviceIo.ofFields f, f.without DeviceIo.keys⟩

def toFields (d : Disk) : Fields := (Fields.ofList d.io.entries).insertAll d.extra

end Disk

structure Interface where
  received : Nat
  sent : Nat
  extra : Fields

namespace Interface

def ofFields (f : Fields) : Interface where
  received := (f.value "rpack").count64
  sent := (f.value "spack").count64
  extra := f.without ["rpack", "spack"]

def toFields (i : Interface) : Fields :=
  (Fields.ofList [("rpack", .int i.received), ("spack", .int i.sent)]).insertAll i.extra

def packets (i : Interface) : Nat := i.received + i.sent

end Interface

structure NumaMemory where
  fragmentation : Metric
  extra : Fields

namespace NumaMemory

def ofFields? (f : Fields) : Option NumaMemory :=
  (f.metric? "frag").map fun fragmentation => ⟨fragmentation, f.without ["frag"]⟩

def toFields (n : NumaMemory) : Fields :=
  (Fields.ofList [("frag", n.fragmentation.toJson)]).insertAll n.extra

end NumaMemory

structure CacheDomain where
  occupancy : Metric
  extra : Fields

namespace CacheDomain

def ofFields? (f : Fields) : Option CacheDomain :=
  (f.metric? "occupancy").map fun occupancy => ⟨occupancy, f.without ["occupancy"]⟩

def toFields (c : CacheDomain) : Fields :=
  (Fields.ofList [("occupancy", c.occupancy.toJson)]).insertAll c.extra

end CacheDomain

end ActivityBoard
