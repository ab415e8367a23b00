import ActivityBoard.Display.Units

/-!
Fields that the board renders. What a field means follows from its key alone, wherever it stands.
-/
namespace ActivityBoard.Display

inductive FieldKind where
  | share
  | pressure
  | frequency
  | elapsed
  | size
  | rate
  | percent
deriving DecidableEq

def shareKeys : List String :=
  ["stime", "utime", "ntime", "itime", "wtime", "Itime", "Stime", "steal", "guest"]

def pressureKeys : List String := ["cpusome", "memsome", "memfull", "iosome", "iofull"]

def frequencyKeys : List String := ["freq"]

def elapsedKeys : List String := ["stime_unit_time", "utime_unit_time", "rundelay", "blkdelay"]

def sizeKeys : List String :=
  ["buffermem", "cachedrt", "cachemem", "commitlim", "committed", "freemem", "freeswap",
    "filepage", "physmem", "rgrow", "rsz", "shmem", "shmrss", "shmswp", "slabmem", "swcac",
    "totmem", "totswap", "slabreclaim", "pagetables", "vexec", "vdata", "vgrow", "vlibs", "vlock",
    "vmem", "vstack", "wsz", "rmem", "pmem", "vswap", "tcpsk", "udpsk", "dirtymem", "active",
    "mbm_total", "mbm_local", "inactive"]

def rateKeys : List String := ["rbyte", "sbyte", "speed"]

def percentKeys : List String :=
  ["cpubusy", "membusy", "diskbusy", "lvmbusy", "frag", "occupancy"]

def classify (key : String) : Option FieldKind :=
  if shareKeys.contains key then some .share
  else if pressureKeys.contains key then some .pressure
  else if frequencyKeys.contains key then some .frequency
  else if elapsedKeys.contains key then some .elapsed
  else if sizeKeys.contains key then some .size
  else if rateKeys.contains key then some .rate
  else if percentKeys.contains key then some .percent
  else none

structure Context where
  /-- Ticks that one core had in the interval. -/
  perCore : Binary64
  hertz : Nat

def FieldKind.render (kind : FieldKind) (context : Context) (x : Binary64) : String :=
  match kind with
  | .share => Display.share x context.perCore
  | .pressure => Display.pressure x
  | .frequency => Display.frequency x
  | .elapsed => Display.elapsed x context.hertz
  | .size => Display.size x
  | .rate => Display.rate x
  | .percent => Display.percent x.shown

end ActivityBoard.Display
