import ActivityBoard.Proofs.Board.Sample
import ActivityBoard.Proofs.Process.Join

namespace ActivityBoard.Board

variable {s : Sample} {onlyProcesses : Bool} {limits limits₁ limits₂ : Limits} {b b₁ b₂ : Board}

/-- Each list has as many rows as there are or as its limit allows. There is a row for each core,
device, node and cache of the sample, and one for each pid that is to be shown. -/
structure Filled (s : Sample) (onlyProcesses : Bool) (limits : Limits) (b : Board) : Prop where
  cores : b.cores.length = min limits.cpu s.cores.length
  volumes : b.volumes.length = min limits.lvm s.volumes.length
  disks : b.disks.length = min limits.disk s.disks.length
  interfaces : b.interfaces.length = min limits.interface s.interfaces.length
  numaMemory : b.numaMemory.length = min limits.numa s.numaMemory.length
  numaCpu : b.numaCpu.length = min limits.numa s.numaCpu.length
  caches : b.caches.length = min limits.llc s.caches.length
  records : ∃ pids : List Nat, pids.Nodup ∧ (∀ p, p ∈ pids ↔ s.tables.Shown onlyProcesses p) ∧
    b.processes.records.length = min limits.processes pids.length

/-- Each list whose limit is not larger begins the other one. -/
structure Begins (limits₁ limits₂ : Limits) (b₁ b₂ : Board) : Prop where
  cores : limits₁.cpu ≤ limits₂.cpu → b₁.cores <+: b₂.cores
  volumes : limits₁.lvm ≤ limits₂.lvm → b₁.volumes <+: b₂.volumes
  disks : limits₁.disk ≤ limits₂.disk → b₁.disks <+: b₂.disks
  interfaces : limits₁.interface ≤ limits₂.interface → b₁.interfaces <+: b₂.interfaces
  numaMemory : limits₁.numa ≤ limits₂.numa → b₁.numaMemory <+: b₂.numaMemory
  numaCpu : limits₁.numa ≤ limits₂.numa → b₁.numaCpu <+: b₂.numaCpu
  caches : limits₁.llc ≤ limits₂.llc → b₁.caches <+: b₂.caches
  records : limits₁.processes ≤ limits₂.processes →
    b₁.processes.records <+: b₂.processes.records

def withoutLists (b : Board) : Board :=
  { b with
    cores := []
    volumes := []
    disks := []
    interfaces := []
    numaMemory := []
    numaCpu := []
    caches := []
    processes := { b.processes with records := [] } }

theorem filled_cut (s : Sample) (settings : Settings) (limits : Limits) :
    Filled s settings.onlyProcesses limits ((uncut s settings).cut limits) where
  cores := by
    rw [cut, List.length_take, uncut, CpuCore.ranked, (ranked_perm ..).length_eq]
  volumes := by
    rw [cut, List.length_take, uncut, List.length_map]
  disks := by
    rw [cut, List.length_take, uncut, DiskSummary.ranked, (ranked_perm ..).length_eq,
      List.length_map]
  interfaces := by
    rw [cut, List.length_take, uncut, Interface.ranked, (ranked_perm ..).length_eq]
  numaMemory := by
    rw [cut, List.length_take, uncut, NumaNode.number, List.length_map, List.length_zipIdx]
  numaCpu := List.length_take
  caches := by
    rw [cut, List.length_take, uncut, CacheDomain.ranked, (ranked_perm ..).length_eq]
  records := by
    refine ⟨(s.tables.chosen settings.onlyProcesses).map Identity.pid, s.tables.nodup_pids_chosen _,
      fun p => ProcessTables.mem_pids_chosen, ?_⟩
    rw [cut, List.length_take, uncut, (ProcessRecord.ranked_perm ..).length_eq,
      ProcessTables.unranked, List.length_map, List.length_map]

theorem begins_cut (limits₁ limits₂ : Limits) (b : Board) :
    Begins limits₁ limits₂ (b.cut limits₁) (b.cut limits₂) where
  cores := List.take_prefix_take_left
  volumes := List.take_prefix_take_left
  disks := List.take_prefix_take_left
  interfaces := List.take_prefix_take_left
  numaMemory := List.take_prefix_take_left
  numaCpu := List.take_prefix_take_left
  caches := List.take_prefix_take_left
  records := List.take_prefix_take_left

/-- Whether a sample has a board, and if not which row is missed, does not depend on the limits. If
it has one, its lists are as long as the limits allow, and under smaller limits they begin alike.
Nothing else on the board depends on the limits. -/
theorem limits_only_cut (s : Sample) (settings : Settings) (limits₁ limits₂ : Limits) :
    match ofSample s { settings with limits := limits₁ },
      ofSample s { settings with limits := limits₂ } with
    | .ok b₁, .ok b₂ =>
      Filled s settings.onlyProcesses limits₁ b₁ ∧ Filled s settings.onlyProcesses limits₂ b₂ ∧
        Begins limits₁ limits₂ b₁ b₂ ∧ b₁.withoutLists = b₂.withoutLists
    | .error e₁, .error e₂ => e₁ = e₂
    | _, _ => False := by
  rw [ofSample_eq, ofSample_eq]
  cases s.tables.failure? settings.missing with
  | some e => rfl
  | none => exact ⟨filled_cut .., filled_cut .., begins_cut .., rfl⟩

end ActivityBoard.Board
