import ActivityBoard.Proofs.Process.Join

namespace ActivityBoard

def ProcessRecord.withoutDiskShare (r : ProcessRecord) : ProcessRecord :=
  { r with diskBusy := ⟨0, 0⟩ }

def Processes.withoutDiskShares (out : Processes) : Processes :=
  { out with records := out.records.map ProcessRecord.withoutDiskShare }

theorem ProcessRecord.map_withoutDiskShare_ranked (mode : SortMode) (rows : List ProcessRecord) :
    (ranked mode rows).map withoutDiskShare = ranked mode (rows.map withoutDiskShare) := by
  cases mode with
  | cpu => exact map_ranked _ _ _ _ _ fun _ _ => rfl
  | memory => exact map_ranked _ _ _ _ _ fun _ _ => rfl
  | disk => exact map_ranked _ _ _ _ _ fun _ _ => rfl

namespace ProcessTables

variable {t t' : ProcessTables} {capacity : Capacity} {settings : Settings} {p : Nat}

def Identified (t : ProcessTables) (p : Nat) : Prop := p ∈ t.identities.map Identity.pid
deriving Decidable

/-- The identities are the same, and the same row counts for each of their pids in each table. -/
structure SameRows (t t' : ProcessTables) : Prop where
  identities : t'.identities = t.identities
  cpu : ∀ p, t.Identified p →
    Table.rowOf CpuUse.pid CpuUse.none t'.cpu p = Table.rowOf CpuUse.pid CpuUse.none t.cpu p
  memory : ∀ p, t.Identified p →
    Table.rowOf MemoryUse.pid MemoryUse.none t'.memory p =
      Table.rowOf MemoryUse.pid MemoryUse.none t.memory p
  disk : ∀ p, t.Identified p →
    Table.rowOf DiskUse.pid DiskUse.none t'.disk p = Table.rowOf DiskUse.pid DiskUse.none t.disk p

theorem SameRows.chosen_eq (h : SameRows t t') (onlyProcesses : Bool) :
    t'.chosen onlyProcesses = t.chosen onlyProcesses := by
  rw [chosen, chosen, h.identities]

/-- The same rows give the same record, but for the total to which its disk transfers are put. -/
theorem SameRows.joined_eq (h : SameRows t t') {onlyProcesses : Bool} {g : Identity}
    (hg : g ∈ t.chosen onlyProcesses) : t'.joined capacity g =
      { t.joined capacity g with
        diskBusy := share
          (Binary64.ofInt (Table.rowOf DiskUse.pid DiskUse.none t.disk g.pid).transferred)
          (Binary64.ofInt t'.transferred) } := by
  have hp := pid_mem_of_chosen hg
  rw [joined, h.cpu _ hp, h.memory _ hp, h.disk _ hp]
  rfl

theorem SameRows.processes_eq (h : SameRows t t') (htotal : t'.transferred = t.transferred) :
    t'.processes capacity settings = t.processes capacity settings := by
  have hrows : t'.unranked capacity settings.onlyProcesses =
      t.unranked capacity settings.onlyProcesses := by
    rw [unranked, h.chosen_eq]
    refine List.map_congr_left fun g hg => ?_
    rw [h.joined_eq hg, htotal]
    rfl
  rw [processes, hrows, h.identities]
  rfl

theorem failure?_congr (hi : t'.identities = t.identities)
    (h : ∀ p, t.Identified p → ∀ table, p ∈ t'.pidsIn table ↔ p ∈ t.pidsIn table)
    (policy : MissingPolicy) : t'.failure? policy = t.failure? policy := by
  have hgap : ∀ p, t.Identified p → t'.refused? policy p = t.refused? policy p := by
    intro p hp
    cases policy with
    | empty => rfl
    | fail => simp only [refused?, gap?, h p hp]
  rw [failure?, failure?, hi, ← List.head?_filterMap, ← List.head?_filterMap,
    List.filterMap_congr hgap]

theorem transferred_congr
    (h : ∀ p, Table.latest? DiskUse.pid t'.disk p = Table.latest? DiskUse.pid t.disk p) :
    t'.transferred = t.transferred := by
  have hcomm : LeftCommutative fun (d : DiskUse) sum => d.transferred + sum :=
    ⟨fun a b c => Int.add_left_comm _ _ _⟩
  exact (Table.distinct_perm h).foldr_eq 0

theorem SameRows.withoutDiskShares_eq (h : SameRows t t') :
    (t'.processes capacity settings).withoutDiskShares =
      (t.processes capacity settings).withoutDiskShares := by
  have hrows : (t'.unranked capacity settings.onlyProcesses).map
      ProcessRecord.withoutDiskShare =
        (t.unranked capacity settings.onlyProcesses).map ProcessRecord.withoutDiskShare := by
    rw [unranked, unranked, h.chosen_eq, List.map_map, List.map_map]
    refine List.map_congr_left fun g hg => ?_
    rw [Function.comp_apply, h.joined_eq hg]
    rfl
  have htimes (counter : ProcessRecord → Nat)
      (hc : ∀ r, counter r.withoutDiskShare = counter r) :
      Table.total counter (t'.unranked capacity settings.onlyProcesses) =
        Table.total counter (t.unranked capacity settings.onlyProcesses) := by
    have := congrArg (Table.total counter) hrows
    simpa only [Table.total_map, hc] using this
  -- No ranking goes by the share, and the summary adds up nothing but times.
  rw [Processes.withoutDiskShares, Processes.withoutDiskShares, processes, processes,
    ProcessSummary.tally, ProcessSummary.tally, List.map_take, List.map_take,
    ProcessRecord.map_withoutDiskShare_ranked, ProcessRecord.map_withoutDiskShare_ranked, hrows,
    htimes (·.cpu.system) fun _ => rfl, htimes (·.cpu.user) fun _ => rfl, h.identities]

theorem SameRows.of_latest? (hi : t'.identities = t.identities)
    (hc : ∀ p, t.Identified p →
      Table.latest? CpuUse.pid t'.cpu p = Table.latest? CpuUse.pid t.cpu p)
    (hm : ∀ p, t.Identified p →
      Table.latest? MemoryUse.pid t'.memory p = Table.latest? MemoryUse.pid t.memory p)
    (hd : ∀ p, t.Identified p →
      Table.latest? DiskUse.pid t'.disk p = Table.latest? DiskUse.pid t.disk p) :
    SameRows t t' ∧ ∀ policy, t'.failure? policy = t.failure? policy := by
  constructor
  · exact ⟨hi, fun p hp => Table.rowOf_congr (hc p hp), fun p hp => Table.rowOf_congr (hm p hp),
      fun p hp => Table.rowOf_congr (hd p hp)⟩
  · apply failure?_congr hi
    intro p hp table
    cases table with
    | cpu => exact Table.mem_pids_congr (hc p hp)
    | memory => exact Table.mem_pids_congr (hm p hp)
    | disk => exact Table.mem_pids_congr (hd p hp)

/-- Each pid that is to be shown has one record, and it is made of the last rows of that pid, if the
limit leaves room for all pids of the identity table. Rows that a later one of their pid replaces
have no effect, whatever the limit, and neither have uses of processor and memory by pids that are
not in the identity table. What such pids moved changes shares of the disk and nothing else. -/
theorem join_of_last_rows (t : ProcessTables) (capacity : Capacity) (settings : Settings) :
    (∀ out, t.join capacity settings = .ok out →
      (t.identities.map Identity.pid).dedup.length ≤ settings.limits.processes →
        (out.records.map (·.identity.pid)).Nodup ∧
        (∀ p, p ∈ out.records.map (·.identity.pid) ↔ t.Shown settings.onlyProcesses p) ∧
        ∀ r ∈ out.records, t.Joins capacity settings.missing r) ∧
    (∀ cpu memory disk, Table.Thinned CpuUse.pid t.Identified t.cpu cpu →
      Table.Thinned MemoryUse.pid t.Identified t.memory memory →
      Table.Thinned DiskUse.pid (fun _ => True) t.disk disk →
        join ⟨t.identities, cpu, memory, disk⟩ capacity settings = t.join capacity settings) ∧
    (∀ disk, Table.Thinned DiskUse.pid t.Identified t.disk disk →
      (join { t with disk := disk } capacity settings).map Processes.withoutDiskShares =
        (t.join capacity settings).map Processes.withoutDiskShares) := by
  refine ⟨?_, ?_, ?_⟩
  · intro out h hl
    have hu := unranked_of_join h
    have hperm := records_perm_of_join h hl
    refine ⟨?_, ?_, ?_⟩
    · rw [(hperm.map _).nodup_iff, pids_unranked]
      exact t.nodup_pids_chosen _
    · intro p
      rw [(hperm.map _).mem_iff, hu.pids]
    · intro r hr
      exact hu.joins r (hperm.mem_iff.1 hr)
  · intro cpu memory disk hc hm hd
    have hlast : ∀ p, Table.latest? DiskUse.pid disk p = Table.latest? DiskUse.pid t.disk p :=
      fun _ => hd.latest?_eq True.intro
    obtain ⟨hrows, hfailure⟩ := @SameRows.of_latest? t ⟨t.identities, cpu, memory, disk⟩ rfl
      (fun _ => hc.latest?_eq) (fun _ => hm.latest?_eq) (fun p _ => hlast p)
    rw [join_eq, join_eq, hfailure, hrows.processes_eq (transferred_congr hlast)]
  · intro disk hd
    obtain ⟨hrows, hfailure⟩ := @SameRows.of_latest? t { t with disk := disk } rfl
      (fun _ _ => rfl) (fun _ _ => rfl) (fun _ => hd.latest?_eq)
    rw [join_eq, join_eq, hfailure]
    cases t.failure? settings.missing with
    | some e => rfl
    | none => exact congrArg Except.ok hrows.withoutDiskShares_eq

def repeated : ProcessTables where
  identities := [⟨7, "(old)", "S", 7, 1, 0, "", 0, 1, 0, 0, []⟩,
    ⟨9, "(thread)", "S", 7, 1, 0, "", 0, 1, 0, 0, []⟩,
    ⟨8, "(idle)", "S", 8, 1, 0, "", 0, 1, 0, 1, []⟩,
    ⟨7, "(new)", "R", 7, 2, 0, "", 1, 1, 0, 1, []⟩]
  cpu := [⟨7, 50, 50, 0, 7, 1, []⟩, ⟨9, 1, 1, 0, 7, 0, []⟩, ⟨7, 3, 4, 1, 7, 1, []⟩,
    ⟨5, 6, 6, 0, 5, 1, []⟩]
  memory := [⟨7, 20, 8, 0, 0, 0, 0, 0, 0, 0, 0, 0, []⟩]
  disk := [⟨7, 1, 2, 3, 4, 5, []⟩, ⟨5, 1, 100, 0, 0, 0, []⟩, ⟨7, 2, 3, 1, 9, 4, []⟩]

def condensed : ProcessTables where
  identities := repeated.identities
  cpu := [⟨9, 1, 1, 0, 7, 0, []⟩, ⟨7, 3, 4, 1, 7, 1, []⟩]
  memory := repeated.memory
  disk := [⟨5, 1, 100, 0, 0, 0, []⟩, ⟨7, 2, 3, 1, 9, 4, []⟩]

theorem repeated_joins_condensed :
    let capacity : Capacity := ⟨1000, 100, 512⟩
    let settings : Settings := { missing := .empty }
    ∃ out, repeated.join capacity settings = .ok out ∧
      (repeated.identities.map Identity.pid).dedup.length ≤ settings.limits.processes ∧
      ((out.records.map (·.identity.pid)).Nodup ∧
        (∀ p, p ∈ out.records.map (·.identity.pid) ↔ repeated.Shown true p) ∧
        ∀ r ∈ out.records, repeated.Joins capacity .empty r) ∧
      Table.Thinned CpuUse.pid repeated.Identified repeated.cpu condensed.cpu ∧
      Table.Thinned MemoryUse.pid repeated.Identified repeated.memory condensed.memory ∧
      Table.Thinned DiskUse.pid (fun _ => True) repeated.disk condensed.disk ∧
      condensed.join capacity settings = .ok out ∧
      Table.Thinned DiskUse.pid repeated.Identified repeated.disk [⟨7, 2, 3, 1, 9, 4, []⟩] ∧
      (join { repeated with disk := [⟨7, 2, 3, 1, 9, 4, []⟩] } capacity settings).map
        Processes.withoutDiskShares = .ok out.withoutDiskShares := by
  intro capacity settings
  have hjoin : repeated.join capacity settings = .ok (repeated.processes capacity settings) :=
    join_eq_ok_iff.2 ⟨rfl, rfl⟩
  have hroom : (repeated.identities.map Identity.pid).dedup.length ≤ 200 := by decide
  have hcpu : Table.Thinned CpuUse.pid repeated.Identified repeated.cpu condensed.cpu :=
    .replaced _ (by decide) (.keep _ (.keep _ (.unasked _ (by decide) .nil)))
  have hmemory : Table.Thinned MemoryUse.pid repeated.Identified repeated.memory
      condensed.memory := .keep _ .nil
  have hdisk : Table.Thinned DiskUse.pid (fun _ => True) repeated.disk condensed.disk :=
    .replaced _ (by decide) (.keep _ (.keep _ .nil))
  have hdisk' : Table.Thinned DiskUse.pid repeated.Identified repeated.disk
      [⟨7, 2, 3, 1, 9, 4, []⟩] :=
    .replaced _ (by decide) (.unasked _ (by decide) (.keep _ .nil))
  obtain ⟨hrecords, hsame, hshares⟩ := join_of_last_rows repeated capacity settings
  refine ⟨_, hjoin, hroom, hrecords _ hjoin hroom, hcpu, hmemory, hdisk, ?_, hdisk', ?_⟩
  · exact (hsame _ _ _ hcpu hmemory hdisk).trans hjoin
  · exact (hshares _ hdisk').trans (congrArg _ hjoin)

end ProcessTables

end ActivityBoard
