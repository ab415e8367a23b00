import ActivityBoard.Proofs.Process.Lookup
import ActivityBoard.Proofs.Ranking

namespace ActivityBoard

/-- The row that counts for `p`: its last one, or one of zeros where it has none and the policy lets
that pass. -/
def Table.Counts {α : Type} (policy : MissingPolicy) (pid : α → Nat) (absent : Nat → α)
    (rows : List α) (p : Nat) (row : α) : Prop :=
  Table.IsLast pid rows p row ∨ policy = .empty ∧ p ∉ rows.map pid ∧ row = absent p

theorem Table.counts_rowOf {α : Type} {policy : MissingPolicy} {pid : α → Nat}
    {absent : Nat → α} {rows : List α} {p : Nat} (h : policy = .empty ∨ p ∈ rows.map pid) :
    Table.Counts policy pid absent rows p (Table.rowOf pid absent rows p) := by
  unfold Table.rowOf
  cases hl : Table.latest? pid rows p with
  | some row => exact .inl (Table.latest?_eq_some_iff.1 hl)
  | none =>
    have hp := Table.latest?_eq_none_iff.1 hl
    exact .inr ⟨h.resolve_right hp, hp, rfl⟩

theorem Table.Counts.rowOf_eq {α : Type} {policy : MissingPolicy} {pid : α → Nat}
    {absent : Nat → α} {rows : List α} {p : Nat} {row : α}
    (h : Table.Counts policy pid absent rows p row) : Table.rowOf pid absent rows p = row := by
  unfold Table.rowOf
  rcases h with hlast | ⟨_, hnone, rfl⟩
  · rw [Table.latest?_eq_some_iff.2 hlast, Option.getD_some]
  · rw [Table.latest?_eq_none_iff.2 hnone, Option.getD_none]

/-- The record shows these rows: times as they are, sizes in bytes. -/
structure ProcessRecord.Shows (r : ProcessRecord) (c : CpuUse) (m : MemoryUse) (d : DiskUse) :
    Prop where
  cpu : r.cpu = c
  memory : r.memory.sizes = m.sizes.map fun (key, n) => (key, n * 1024)
  disk : r.disk.counters = [("rio", d.reads), ("rsz", d.readSize * 512), ("wio", d.writes),
    ("wsz", d.writeSize * 512), ("cwsz", d.cancelled * 512)]
  memoryExtra : r.memory.extra = m.extra
  diskExtra : r.disk.extra = d.extra

theorem ProcessRecord.ranked_perm (mode : SortMode) (rows : List ProcessRecord) :
    (ranked mode rows).Perm rows := by
  cases mode with
  | cpu => exact ActivityBoard.ranked_perm ..
  | memory => exact ActivityBoard.ranked_perm ..
  | disk => exact ActivityBoard.ranked_perm ..

namespace ProcessTables

variable {t : ProcessTables} {capacity : Capacity} {settings : Settings} {out : Processes}
  {policy : MissingPolicy} {p : Nat}

/-- The record is that of its pid: each part of it comes from the row that counts there. -/
def Joins (t : ProcessTables) (capacity : Capacity) (policy : MissingPolicy) (r : ProcessRecord) :
    Prop :=
  Table.IsLast Identity.pid t.identities r.identity.pid r.identity ∧
    ∃ c m d, Table.Counts policy CpuUse.pid CpuUse.none t.cpu r.identity.pid c ∧
      Table.Counts policy MemoryUse.pid MemoryUse.none t.memory r.identity.pid m ∧
      Table.Counts policy DiskUse.pid DiskUse.none t.disk r.identity.pid d ∧
      r.Shows c m d ∧ r = record capacity t.transferred r.identity c m d

/-- The pid has a record: its last row is one of a process, or threads are shown too. -/
def Shown (t : ProcessTables) (onlyProcesses : Bool) (p : Nat) : Prop :=
  ∃ g, Table.IsLast Identity.pid t.identities p g ∧ (g.leads = true ∨ onlyProcesses = false)

structure Unranked (t : ProcessTables) (capacity : Capacity) (settings : Settings)
    (rows : List ProcessRecord) : Prop where
  ordered : rows.Pairwise fun a b =>
    (t.identities.map Identity.pid).idxOf a.identity.pid <
      (t.identities.map Identity.pid).idxOf b.identity.pid
  pids : ∀ p, p ∈ rows.map (·.identity.pid) ↔ t.Shown settings.onlyProcesses p
  joins : ∀ r ∈ rows, t.Joins capacity settings.missing r

theorem shows_record (total : Int) (g : Identity) (c : CpuUse) (m : MemoryUse) (d : DiskUse) :
    (record capacity total g c m d).Shows c m d :=
  ⟨rfl, rfl, rfl, rfl, rfl⟩

theorem pids_unranked (t : ProcessTables) (capacity : Capacity) (onlyProcesses : Bool) :
    (t.unranked capacity onlyProcesses).map (·.identity.pid) =
      (t.chosen onlyProcesses).map Identity.pid := by
  rw [unranked, List.map_map]
  rfl

theorem mem_chosen {onlyProcesses : Bool} {g : Identity} : g ∈ t.chosen onlyProcesses ↔
    Table.IsLast Identity.pid t.identities g.pid g ∧
      (g.leads = true ∨ onlyProcesses = false) := by
  rw [chosen, List.mem_filter, Table.mem_distinct]
  simp

theorem mem_pids_chosen {onlyProcesses : Bool} :
    p ∈ (t.chosen onlyProcesses).map Identity.pid ↔ t.Shown onlyProcesses p := by
  rw [List.mem_map, Shown]
  constructor
  · intro hp
    obtain ⟨g, hg, rfl⟩ := hp
    exact ⟨g, mem_chosen.1 hg⟩
  · intro hp
    obtain ⟨g, hlast, hshown⟩ := hp
    obtain rfl := hlast.1
    exact ⟨g, mem_chosen.2 ⟨hlast, hshown⟩, rfl⟩

theorem pids_chosen_sublist (t : ProcessTables) (onlyProcesses : Bool) :
    ((t.chosen onlyProcesses).map Identity.pid).Sublist
      (firstSeen (t.identities.map Identity.pid)) := by
  rw [← Table.pids, ← Table.map_pid_distinct]
  exact List.filter_sublist.map _

theorem nodup_pids_chosen (t : ProcessTables) (onlyProcesses : Bool) :
    ((t.chosen onlyProcesses).map Identity.pid).Nodup :=
  (nodup_firstSeen _).sublist (t.pids_chosen_sublist _)

theorem pid_mem_of_chosen {onlyProcesses : Bool} {g : Identity} (h : g ∈ t.chosen onlyProcesses) :
    g.pid ∈ t.identities.map Identity.pid :=
  List.mem_map_of_mem (mem_chosen.1 h).1.mem

theorem length_chosen_le (t : ProcessTables) (onlyProcesses : Bool) :
    (t.chosen onlyProcesses).length ≤ (t.identities.map Identity.pid).dedup.length := by
  rw [← Table.length_distinct]
  exact List.length_filter_le ..

theorem refused?_eq_none_iff : t.refused? policy p = none ↔
    policy = .empty ∨ ∀ table, p ∈ t.pidsIn table := by
  cases policy <;> simp [refused?, gap?_eq_none_iff]

theorem joins_joined {g : Identity} (hg : Table.IsLast Identity.pid t.identities g.pid g)
    (h : t.refused? policy g.pid = none) : t.Joins capacity policy (t.joined capacity g) := by
  rw [refused?_eq_none_iff] at h
  exact ⟨hg, _, _, _, Table.counts_rowOf (h.imp_right (· .cpu)),
    Table.counts_rowOf (h.imp_right (· .memory)), Table.counts_rowOf (h.imp_right (· .disk)),
    shows_record .., rfl⟩

theorem unranked_of_join (h : t.join capacity settings = .ok out) :
    Unranked t capacity settings (t.unranked capacity settings.onlyProcesses) where
  ordered := by
    have hordered := (firstSeen_pairwise_idxOf _).sublist
      (t.pids_chosen_sublist settings.onlyProcesses)
    rw [← pids_unranked t capacity, List.pairwise_map] at hordered
    exact hordered
  pids p := by
    rw [pids_unranked, mem_pids_chosen]
  joins r hr := by
    obtain ⟨g, hg, rfl⟩ := List.mem_map.1 hr
    have hnone := List.findSome?_eq_none_iff.1 (join_eq_ok_iff.1 h).1
    exact joins_joined (mem_chosen.1 hg).1 (hnone _ (pid_mem_of_chosen hg))

theorem records_processes (capacity : Capacity)
    (hroom : (t.identities.map Identity.pid).dedup.length ≤ settings.limits.processes) :
    (t.processes capacity settings).records =
      ProcessRecord.ranked settings.sort (t.unranked capacity settings.onlyProcesses) := by
  apply List.take_of_length_le
  rw [(ProcessRecord.ranked_perm _ _).length_eq, unranked, List.length_map]
  exact (t.length_chosen_le _).trans hroom

theorem records_perm_of_join (h : t.join capacity settings = .ok out)
    (hroom : (t.identities.map Identity.pid).dedup.length ≤ settings.limits.processes) :
    out.records.Perm (t.unranked capacity settings.onlyProcesses) := by
  rw [(join_eq_ok_iff.1 h).2, records_processes capacity hroom]
  exact ProcessRecord.ranked_perm _ _

end ProcessTables

end ActivityBoard
