import ActivityBoard.Calendar
import ActivityBoard.Text

namespace ActivityBoard

inductive SortMode where
  | cpu
  | memory
  | disk
deriving DecidableEq

namespace SortMode

def label : SortMode → String
  | .cpu => "CPU"
  | .memory => "MEM"
  | .disk => "DISK"

/-- A mode by one of its names in any case; what is no name of another mode means `cpu`. -/
def ofText (s : String) : SortMode :=
  if Text.sameWord s "mem" || Text.sameWord s "memory" then .memory
  else if Text.sameWord s "disk" || Text.sameWord s "dsk" then .disk
  else .cpu

end SortMode

inductive MissingPolicy where
  | fail
  | empty
deriving DecidableEq

/-- A policy by name in any case; an unknown name is the strict policy. -/
def MissingPolicy.ofText (s : String) : MissingPolicy :=
  if Text.sameWord s "empty" || Text.sameWord s "lenient" then .empty else .fail

structure Limits where
  processes : Nat := 200
  cpu : Nat := 0
  lvm : Nat := 4
  disk : Nat := 1
  interface : Nat := 2
  numa : Nat := 0
  llc : Nat := 0
deriving DecidableEq

structure Settings where
  limits : Limits := {}
  sort : SortMode := .cpu
  /-- Threads are left out. -/
  onlyProcesses : Bool := true
  missing : MissingPolicy := .fail
  zone : Calendar.Zone := {}
deriving DecidableEq

end ActivityBoard
