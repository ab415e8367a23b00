import ActivityBoard.Sample.Machine

/-!
What the machine had to give in the interval. These are the denominators of every share.
-/
namespace ActivityBoard

structure Capacity where
  coreMillis : Binary64
  coreTicks : Binary64
  /-- Physical memory in megabytes. -/
  memory : Binary64
deriving DecidableEq

namespace Capacity

/-- All ticks of a sample; an idle one counts as one tick, so that nothing divides by zero. -/
def ticks (cpu : CpuTotals) : Binary64 :=
  match cpu.times.total with
  | 0 => 1
  | total => Binary64.ofNat total

def ofSample (cpu : CpuTotals) (memory : Option MemoryStats) : Capacity :=
  let cores := Binary64.ofNat (max cpu.cores 1)
  let hertz := Binary64.ofNat (max cpu.hertz 1)
  { coreMillis := ticks cpu * 1000 / hertz / cores
    coreTicks := ticks cpu / cores
    memory := match memory with
      | some m => Binary64.ofNat m.physical / 1024
      | none => 0 }

def toFields (c : Capacity) : Fields :=
  Fields.ofList [("mstot", Json.ofMetric c.coreMillis), ("percputot", Json.ofMetric c.coreTicks),
    ("availmem", Json.ofMetric c.memory)]

end Capacity

end ActivityBoard
