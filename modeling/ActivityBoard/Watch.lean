import ActivityBoard.Dashboard

namespace ActivityBoard

structure Watch where
  dashboard : Dashboard Unit
  done : Nat
  lines : List String

namespace Watch

def start (settings : Settings) : Watch := ⟨Dashboard.new settings [], 0, []⟩

def line (sort : SortMode) (b : Board) : String :=
  let shown := Nat.repr b.processes.records.length
  let all := Nat.repr b.processes.summary.processes
  b.date ++ " cpu " ++ b.cpu.busy.text ++ "% procs " ++ shown ++ "/" ++ all ++ " sort " ++
    sort.label

def linesOf (sort : SortMode) : Dashboard.Progress → List String
  | .finished (.ok board) => [line sort board]
  | _ => []

def refresh (w : Watch) (fetched : Fetched) : Watch :=
  let (dashboard, progress) := w.dashboard.refreshNow () (.at none) fetched
  ⟨dashboard, w.done + 1, w.lines ++ linesOf dashboard.settings.sort progress⟩

def isOver (limit : Option Nat) (w : Watch) : Bool :=
  match limit with
  | some limit => decide (limit ≤ w.done)
  | none => false

/-- Refreshes until `limit` of them are done; after `n` refreshes `source n` is fetched. The count
is compared behind each refresh, so there is always a first one. -/
def run (source : Nat → Fetched) (limit : Nat) (w : Watch) : Watch :=
  let next := w.refresh (source w.done)
  if limit ≤ w.done + 1 then next else run source limit next
termination_by limit - w.done
decreasing_by
  have : (w.refresh (source w.done)).done = w.done + 1 := rfl
  omega

end Watch

end ActivityBoard
