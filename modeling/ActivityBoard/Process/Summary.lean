import ActivityBoard.Process.Record
import ActivityBoard.Rows

namespace ActivityBoard

structure ProcessSummary where
  processes : Nat
  zombies : Nat
  exited : Nat
  running : Nat
  sleeping : Nat
  blocked : Nat
  systemTime : Nat
  userTime : Nat
deriving DecidableEq

namespace ProcessSummary

/-- States are counted over `identities`, times over `records`. -/
def tally (identities : List Identity) (records : List ProcessRecord) : ProcessSummary :=
  let living := identities.filter fun g => !g.hasExited
  { processes := living.length
    zombies := (living.filter Identity.isZombie).length
    exited := (identities.filter Identity.hasExited).length
    running := Table.total Identity.running living
    sleeping := Table.total Identity.sleeping living
    blocked := Table.total Identity.blocked living
    systemTime := Table.total (·.cpu.system) records
    userTime := Table.total (·.cpu.user) records }

def toFields (s : ProcessSummary) : Fields :=
  Fields.ofList [("proc_count", .int s.processes), ("sleep_count", .int 0),
    ("zombie_count", .int s.zombies), ("exit_count", .int s.exited),
    ("running_count", .int s.running), ("sleep_interrupt_count", .int s.sleeping),
    ("sleep_uninterrupt_count", .int s.blocked), ("stime_unit_time", .int s.systemTime),
    ("utime_unit_time", .int s.userTime)]

end ProcessSummary

end ActivityBoard
