import ActivityBoard.Sample.Fields

namespace ActivityBoard

structure Identity where
  pid : Nat
  name : String
  state : String
  group : Nat
  threads : Nat
  exitCode : Int
  commandLine : String
  running : Nat
  sleeping : Nat
  blocked : Nat
  isProcess : Int
  extra : Fields

namespace Identity

def keys : List String :=
  ["pid", "name", "state", "tgid", "nthr", "exitcode", "cmdline", "nthrrun", "nthrslpi",
    "nthrslpu", "isproc"]

def ofFields? (f : Fields) : Option Identity := do
  let name ← f.text? "name"
  let state ← f.text? "state"
  let commandLine ← f.text? "cmdline"
  pure {
    pid := (f.value "pid").count32
    name := name
    state := state
    group := (f.value "tgid").count32
    threads := (f.value "nthr").count32
    exitCode := (f.value "exitcode").int32
    commandLine := commandLine
    running := (f.value "nthrrun").count64
    sleeping := (f.value "nthrslpi").count64
    blocked := (f.value "nthrslpu").count64
    isProcess := (f.value "isproc").int32
    extra := f.without keys }

def shape : Json.RowShape := { keys := keys, strings := ["name", "state", "cmdline"] }

def reader : Json.Reader Identity := shape.fields.decode ofFields?

def toFields (g : Identity) : Fields :=
  (Fields.ofList [("pid", .int g.pid), ("name", .str g.name), ("state", .str g.state),
    ("tgid", .int g.group), ("nthr", .int g.threads), ("exitcode", .int g.exitCode),
    ("cmdline", .str g.commandLine), ("nthrrun", .int g.running), ("nthrslpi", .int g.sleeping),
    ("nthrslpu", .int g.blocked), ("isproc", .int g.isProcess)]).insertAll g.extra

/-- The leader of a thread group; the other rows are threads. -/
def leads (g : Identity) : Bool := g.isProcess == 1

def hasExited (g : Identity) : Bool := g.state == "E"

def isZombie (g : Identity) : Bool := g.state == "Z"

end Identity

/-- A row of `PRC`: processor time in clock ticks. -/
structure CpuUse where
  pid : Nat
  user : Nat
  system : Nat
  core : Int
  group : Nat
  isProcess : Int
  extra : Fields

namespace CpuUse

def keys : List String := ["pid", "utime", "stime", "curcpu", "tgid", "isproc"]

def ofFields (f : Fields) : CpuUse where
  pid := (f.value "pid").count32
  user := (f.value "utime").count64
  system := (f.value "stime").count64
  core := (f.value "curcpu").int64
  group := (f.value "tgid").count32
  isProcess := (f.value "isproc").int32
  extra := f.without keys

def shape : Json.RowShape := { keys := keys }

def reader : Json.Reader CpuUse := shape.fields.decode fun f => some (ofFields f)

def toFields (c : CpuUse) : Fields :=
  (Fields.ofList [("pid", .int c.pid), ("utime", .int c.user), ("stime", .int c.system),
    ("curcpu", .int c.core), ("tgid", .int c.group),
    ("isproc", .int c.isProcess)]).insertAll c.extra

def none (pid : Nat) : CpuUse := ⟨pid, 0, 0, 0, 0, 0, []⟩

def busy (c : CpuUse) : Nat := c.user + c.system

end CpuUse

/-- A row of `PRM`: memory in kilobytes; growth may be negative. -/
structure MemoryUse where
  pid : Nat
  virtual : Int
  resident : Int
  executable : Int
  virtualGrowth : Int
  residentGrowth : Int
  libraries : Int
  data : Int
  stack : Int
  locked : Int
  swapped : Int
  proportional : Int
  extra : Fields

namespace MemoryUse

def keys : List String :=
  ["pid", "vmem", "rmem", "vexec", "vgrow", "rgrow", "vlibs", "vdata", "vstack", "vlock", "vswap",
    "pmem"]

def ofFields (f : Fields) : MemoryUse where
  pid := (f.value "pid").count32
  virtual := (f.value "vmem").int64
  resident := (f.value "rmem").int64
  executable := (f.value "vexec").int64
  virtualGrowth := (f.value "vgrow").int64
  residentGrowth := (f.value "rgrow").int64
  libraries := (f.value "vlibs").int64
  data := (f.value "vdata").int64
  stack := (f.value "vstack").int64
  locked := (f.value "vlock").int64
  swapped := (f.value "vswap").int64
  proportional := (f.value "pmem").int64
  extra := f.without keys

def shape : Json.RowShape := { keys := keys }

def reader : Json.Reader MemoryUse := shape.fields.decode fun f => some (ofFields f)

def sizes (m : MemoryUse) : List (String × Int) :=
  [("vmem", m.virtual), ("rmem", m.resident), ("vexec", m.executable), ("vgrow", m.virtualGrowth),
    ("rgrow", m.residentGrowth), ("vlibs", m.libraries), ("vdata", m.data), ("vstack", m.stack),
    ("vlock", m.locked), ("vswap", m.swapped), ("pmem", m.proportional)]

def toFields (m : MemoryUse) : Fields :=
  (Fields.ofList (("pid", .int m.pid) :: m.sizes.map fun (key, n) => (key, .int n))).insertAll
    m.extra

def none (pid : Nat) : MemoryUse := ⟨pid, 0, 0, 0, 0, 0, 0, 0, 0, 0, 0, 0, []⟩

def scaled (factor : Int) (m : MemoryUse) : MemoryUse :=
  { m with
    virtual := m.virtual * factor
    resident := m.resident * factor
    executable := m.executable * factor
    virtualGrowth := m.virtualGrowth * factor
    residentGrowth := m.residentGrowth * factor
    libraries := m.libraries * factor
    data := m.data * factor
    stack := m.stack * factor
    locked := m.locked * factor
    swapped := m.swapped * factor
    proportional := m.proportional * factor }

end MemoryUse

/-- A row of `PRD`: requests, and transfers in sectors of 512 bytes. -/
structure DiskUse where
  pid : Nat
  reads : Int
  readSize : Int
  writes : Int
  writeSize : Int
  cancelled : Int
  extra : Fields

namespace DiskUse

def keys : List String := ["pid", "rio", "rsz", "wio", "wsz", "cwsz"]

def ofFields (f : Fields) : DiskUse where
  pid := (f.value "pid").count32
  reads := (f.value "rio").int64
  readSize := (f.value "rsz").int64
  writes := (f.value "wio").int64
  writeSize := (f.value "wsz").int64
  cancelled := (f.value "cwsz").int64
  extra := f.without keys

def shape : Json.RowShape := { keys := keys }

def reader : Json.Reader DiskUse := shape.fields.decode fun f => some (ofFields f)

def counters (d : DiskUse) : List (String × Int) :=
  [("rio", d.reads), ("rsz", d.readSize), ("wio", d.writes), ("wsz", d.writeSize),
    ("cwsz", d.cancelled)]

def toFields (d : DiskUse) : Fields :=
  (Fields.ofList (("pid", .int d.pid) :: d.counters.map fun (key, n) => (key, .int n))).insertAll
    d.extra

def none (pid : Nat) : DiskUse := ⟨pid, 0, 0, 0, 0, 0, []⟩

/-- Written sectors without those that were cancelled before they reached the disk. -/
def netWrite (d : DiskUse) : Int := max (d.writeSize - d.cancelled) 0

def transferred (d : DiskUse) : Int := d.readSize + d.netWrite

def scaled (factor : Int) (d : DiskUse) : DiskUse :=
  { d with
    readSize := d.readSize * factor
    writeSize := d.writeSize * factor
    cancelled := d.cancelled * factor }

end DiskUse

end ActivityBoard
