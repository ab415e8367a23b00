import ActivityBoard.Proofs.Board.Sample
import ActivityBoard.Proofs.Process.LastRows

namespace ActivityBoard

namespace ProcessTables

variable {t : ProcessTables} {capacity : Capacity} {settings : Settings}
  {rows : List ProcessRecord}

/-- Read requests of a pid, and the bytes that it wrote without those cancelled. -/
def diskWork (t : ProcessTables) (p : Nat) : Int :=
  let d := Table.rowOf DiskUse.pid DiskUse.none t.disk p
  d.reads + 512 * max 0 (d.writeSize - d.cancelled)

/-- The records are the first `k` of `rows` by what the mode names. -/
def IsTopBy (t : ProcessTables) (mode : SortMode) (k : Nat) (rows top : List ProcessRecord) :
    Prop :=
  match mode with
  | .cpu => IsTop (fun r => r.cpu.system + r.cpu.user) k rows top
  | .memory => IsTop (fun r => r.memory.resident) k rows top
  | .disk =>
    IsTop (fun r => toLex (t.diskWork r.identity.pid, r.cpu.system + r.cpu.user)) k rows top

theorem diskRank_record (total : Int) (g : Identity) (c : CpuUse) (m : MemoryUse) (d : DiskUse) :
    (record capacity total g c m d).diskRank = d.reads + 512 * max 0 (d.writeSize - d.cancelled) := by
  change (if d.cancelled * 512 < d.writeSize * 512 then
    d.reads + d.writeSize * 512 - d.cancelled * 512 else d.reads) = _
  split
  · rw [Int.max_eq_right (by omega)]
    omega
  · rw [Int.max_eq_left (by omega)]
    omega

theorem Unranked.diskRank_eq (h : Unranked t capacity settings rows) {r : ProcessRecord}
    (hr : r ∈ rows) : r.diskRank = t.diskWork r.identity.pid := by
  obtain ⟨_, c, m, d, _, _, hd, _, hrecord⟩ := h.joins r hr
  rw [diskWork, hd.rowOf_eq, hrecord, diskRank_record]

theorem Unranked.isTopBy (h : Unranked t capacity settings rows) (mode : SortMode) (k : Nat) :
    t.IsTopBy mode k rows ((ProcessRecord.ranked mode rows).take k) := by
  cases mode with
  | cpu => exact isTop_ranked (f := id) natLe_iff k rows
  | memory => exact isTop_ranked (f := id) intLe_iff k rows
  | disk =>
    refine (isTop_ranked (f := toLex) pairLe_iff k rows).congr fun r hr => ?_
    rw [h.diskRank_eq hr]
    rfl

theorem isTopBy_of_join {out : Processes} (h : t.join capacity settings = .ok out) :
    ∃ rows, Unranked t capacity settings rows ∧
      t.IsTopBy settings.sort settings.limits.processes rows out.records := by
  have hu := unranked_of_join h
  refine ⟨_, hu, ?_⟩
  rw [(join_eq_ok_iff.1 h).2]
  exact hu.isTopBy _ _

end ProcessTables

theorem DiskSummary.map_disk_ranked (disks : List Disk) (coreMillis : Binary64) (elapsed : Int) :
    (ranked (disks.map fun disk => ofDisk disk coreMillis elapsed)).map (·.disk) =
      ActivityBoard.ranked (·.io.busyMillis) natLe disks := by
  have hdisks : (disks.map fun disk => ofDisk disk coreMillis elapsed).map (·.disk) = disks := by
    rw [List.map_map]
    exact List.map_id _
  have hranked := map_ranked DiskSummary.disk (·.disk.io.busyMillis) (·.io.busyMillis) natLe
    (disks.map fun disk => ofDisk disk coreMillis elapsed) fun _ _ => rfl
  rw [ranked, hranked, hdisks]

namespace Board

variable {s : Sample} {settings : Settings} {board : Board}

theorem join_of_ofSample (h : ofSample s settings = .ok board) :
    s.tables.join board.capacity settings = .ok board.processes := by
  obtain ⟨hfailure, rfl⟩ := ofSample_eq_ok_iff.1 h
  exact ProcessTables.join_eq_ok_iff.2 ⟨hfailure, rfl⟩

/-- Records of a join, and cores, disks and interfaces of a board, are the first ones of their
rankings, as many as the limit allows. Records have their places by where their pids first appear
among the identities, the others by where they stand in the sample. -/
theorem lists_top :
    (∀ (t : ProcessTables) (capacity : Capacity) (settings : Settings) (out : Processes),
      t.join capacity settings = .ok out → ∃ rows, t.Unranked capacity settings rows ∧
        t.IsTopBy settings.sort settings.limits.processes rows out.records) ∧
    ∀ (s : Sample) (settings : Settings) (board : Board), ofSample s settings = .ok board →
      IsTop (fun core => core.times.user + core.times.system) settings.limits.cpu s.cores
        board.cores ∧
      IsTop (fun disk => disk.io.busyMillis) settings.limits.disk s.disks
        (board.disks.map (·.disk)) ∧
      IsTop (fun i => i.received + i.sent) settings.limits.interface s.interfaces
        board.interfaces ∧
      ∃ rows, s.tables.Unranked board.capacity settings rows ∧
        s.tables.IsTopBy settings.sort settings.limits.processes rows board.processes.records := by
  constructor
  · exact fun t capacity settings out h => ProcessTables.isTopBy_of_join h
  · intro s settings board h
    have hrecords := ProcessTables.isTopBy_of_join (join_of_ofSample h)
    obtain ⟨_, rfl⟩ := ofSample_eq_ok_iff.1 h
    refine ⟨isTop_ranked (f := id) natLe_iff _ _, ?_, isTop_ranked (f := id) natLe_iff _ _,
      hrecords⟩
    change IsTop _ _ _ (((DiskSummary.ranked _).take _).map _)
    rw [List.map_take, DiskSummary.map_disk_ranked]
    exact isTop_ranked (f := id) natLe_iff _ _

def tied : Sample where
  timestamp := 1700000000
  elapsed := 10
  cpu := ⟨100, 3, ⟨9, 9, 0, 2, 0, 0, 0, 0⟩, []⟩
  cores := [⟨⟨3, 3, 0, 1, 0, 0, 0, 0⟩, []⟩, ⟨⟨4, 2, 0, 0, 0, 0, 0, 0⟩, []⟩,
    ⟨⟨2, 5, 0, 1, 0, 0, 0, 0⟩, []⟩]
  load := none
  memory := none
  pressure := none
  volumes := []
  disks := [⟨⟨5, 1, 8, 0, 0⟩, []⟩, ⟨⟨7, 0, 0, 2, 8⟩, []⟩, ⟨⟨7, 1, 8, 1, 8⟩, []⟩]
  interfaces := [⟨2, 2, []⟩, ⟨3, 1, []⟩, ⟨0, 4, []⟩]
  numaMemory := []
  numaCpu := []
  caches := []
  identities := ProcessTables.repeated.identities
  cpuUse := ProcessTables.repeated.cpu
  memoryUse := ProcessTables.repeated.memory
  diskUse := ProcessTables.repeated.disk
  extra := []

theorem lists_top_tied :
    let settings : Settings :=
      { limits := { cpu := 2, processes := 1 }, sort := .disk, missing := .empty }
    ∃ board, ofSample tied settings = .ok board ∧
      IsTop (fun core => core.times.user + core.times.system) 2 tied.cores board.cores ∧
      IsTop (fun disk => disk.io.busyMillis) 1 tied.disks (board.disks.map (·.disk)) ∧
      IsTop (fun i => i.received + i.sent) 2 tied.interfaces board.interfaces ∧
      (∃ rows, tied.tables.Unranked board.capacity settings rows ∧
        tied.tables.IsTopBy .disk 1 rows board.processes.records) ∧
      ∃ out, tied.tables.join board.capacity settings = .ok out ∧
        ∃ rows, tied.tables.Unranked board.capacity settings rows ∧
          tied.tables.IsTopBy .disk 1 rows out.records := by
  intro settings
  have hboard : ofSample tied settings = .ok _ := ofSample_eq_ok_iff.2 ⟨rfl, rfl⟩
  obtain ⟨hcores, hdisks, hinterfaces, hrecords⟩ := lists_top.2 tied settings _ hboard
  have hjoin := join_of_ofSample hboard
  exact ⟨_, hboard, hcores, hdisks, hinterfaces, hrecords, _, hjoin,
    lists_top.1 _ _ settings _ hjoin⟩

end Board

end ActivityBoard
