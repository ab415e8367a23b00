import ActivityBoard.Proofs.Board.Percent
import ActivityBoard.Proofs.Board.Shares
import ActivityBoard.Proofs.Process.Join
import Mathlib.Algebra.BigOperators.Group.Finset.Basic

namespace ActivityBoard

open Binary64 Figure Json

namespace ProcessTables

variable {t : ProcessTables} {capacity : Capacity} {settings : Settings} {out : Processes} {p : ℕ}

/-- The sectors that `p` moved by its row of the disk table: those it read, and those it wrote
beyond the cancelled ones. -/
def sectors (t : ProcessTables) (p : ℕ) : ℤ :=
  let d := Table.rowOf DiskUse.pid DiskUse.none t.disk p
  d.readSize + max 0 (d.writeSize - d.cancelled)

theorem transferred_rowOf (t : ProcessTables) (p : ℕ) :
    (Table.rowOf DiskUse.pid DiskUse.none t.disk p).transferred = t.sectors p := by
  rw [DiskUse.transferred, DiskUse.netWrite, max_comm]
  rfl

theorem sectors_of_not_mem (h : p ∉ t.disk.map DiskUse.pid) : t.sectors p = 0 := by
  rw [← transferred_rowOf, Table.rowOf, Table.latest?_eq_none_iff.2 h]
  rfl

theorem transferred_eq_sum (t : ProcessTables) :
    t.transferred = ((Table.pids DiskUse.pid t.disk).map t.sectors).sum := by
  have hrows : ∀ d ∈ Table.distinct DiskUse.pid t.disk, d.transferred = t.sectors d.pid := by
    intro d hd
    rw [← transferred_rowOf, Table.rowOf, Table.latest?_eq_some_iff.2 (Table.mem_distinct.1 hd)]
    rfl
  calc t.transferred = ((Table.distinct DiskUse.pid t.disk).map DiskUse.transferred).sum :=
        t.transferred_eq_sum_rows
    _ = ((Table.distinct DiskUse.pid t.disk).map fun d => t.sectors d.pid).sum := by
        rw [List.map_congr_left hrows]
    _ = _ := by
        rw [← Table.map_pid_distinct, List.map_map]
        rfl

/-- No last row of the disk table counts reads below zero. -/
def ReadsCounted (t : ProcessTables) : Prop :=
  ∀ p d, Table.IsLast DiskUse.pid t.disk p d → 0 ≤ d.readSize

theorem sectors_nonneg (h : t.ReadsCounted) (p : ℕ) : 0 ≤ t.sectors p := by
  by_cases hp : p ∈ t.disk.map DiskUse.pid
  · obtain ⟨d, hd⟩ := Table.exists_isLast_iff.2 hp
    have hread : 0 ≤ (Table.rowOf DiskUse.pid DiskUse.none t.disk p).readSize := by
      rw [Table.rowOf, Table.latest?_eq_some_iff.2 hd]
      exact h p d hd
    exact add_nonneg hread (le_max_left ..)
  · exact (sectors_of_not_mem hp).ge

theorem nonneg_of_mem_sectors (h : t.ReadsCounted) {pids : List ℕ} :
    ∀ n ∈ pids.map t.sectors, 0 ≤ n := by
  intro n hn
  obtain ⟨p, -, rfl⟩ := List.mem_map.1 hn
  exact sectors_nonneg h p

theorem transferred_nonneg_of_reads (h : t.ReadsCounted) : 0 ≤ t.transferred := by
  rw [transferred_eq_sum]
  exact List.sum_nonneg (nonneg_of_mem_sectors h)

theorem sectors_le_transferred (h : t.ReadsCounted) (p : ℕ) : t.sectors p ≤ t.transferred := by
  by_cases hp : p ∈ t.disk.map DiskUse.pid
  · rw [transferred_eq_sum]
    apply List.single_le_sum (nonneg_of_mem_sectors h)
    exact List.mem_map_of_mem (mem_firstSeen.2 hp)
  · rw [sectors_of_not_mem hp]
    exact transferred_nonneg_of_reads h

theorem sum_sectors (hdisk : ∀ p ∈ t.disk.map DiskUse.pid, p ∈ t.identities.map Identity.pid) :
    ((Table.pids Identity.pid t.identities).map t.sectors).sum = t.transferred := by
  rw [transferred_eq_sum, Table.pids, Table.pids, ← List.sum_toFinset _ (nodup_firstSeen _),
    ← List.sum_toFinset _ (nodup_firstSeen _)]
  symm
  apply Finset.sum_subset
  · intro p hp
    rw [List.mem_toFinset, mem_firstSeen] at hp ⊢
    exact hdisk p hp
  · intro p _ hp
    rw [List.mem_toFinset, mem_firstSeen] at hp
    exact sectors_of_not_mem hp

end ProcessTables

/-- The sectors of a record are a part of the total, and their share is shown as one: with one
place, from zero to a hundred, and as zero where nothing was moved at all. -/
structure ProcessRecord.DividesDisk (t : ProcessTables) (r : ProcessRecord) : Prop where
  bytes_eq : r.disk.transferred = t.sectors r.identity.pid * 512
  nonneg : 0 ≤ t.sectors r.identity.pid
  le : t.sectors r.identity.pid ≤ t.transferred
  places_eq : r.diskBusy.places = 1
  shown : ∃ n : Numeral, n.WritesPlaces 1 r.diskBusy.text ∧ n.negative = false ∧
    0 ≤ n.value ∧ n.value ≤ 100
  idle : t.transferred = 0 → r.diskBusy.text = "0.0"

namespace ProcessTables

variable {t : ProcessTables} {capacity : Capacity} {settings : Settings} {out : Processes} {p : ℕ}

theorem dividesDisk_joined (h : t.ReadsCounted) (hfits : t.transferred ≤ 9223372036854775807)
    (capacity : Capacity) (g : Identity) : (t.joined capacity g).DividesDisk t := by
  have hnonneg := sectors_nonneg h g.pid
  have hle := sectors_le_transferred h g.pid
  have hbusy : (t.joined capacity g).diskBusy =
      share (ofInt (t.sectors g.pid)) (ofInt t.transferred) := by
    rw [← transferred_rowOf]
    rfl
  obtain ⟨hplaces, units, hunits, htext⟩ := share_shown hnonneg hle hfits
  refine ⟨?_, hnonneg, hle, hbusy ▸ hplaces, ?_, ?_⟩
  · exact (transferred_scaled _).trans (congrArg (· * 512) (t.transferred_rowOf g.pid))
  · have hvalue : (Numeral.ofPlaces false 1 units).value = units / 10 := by
      rw [Numeral.value_ofPlaces, pow_one]
      rfl
    have hcast : (units : ℚ) ≤ 1000 := by exact_mod_cast hunits
    rw [hbusy, htext]
    refine ⟨_, Numeral.writesPlaces_ofPlaces false 1 units, rfl, ?_, ?_⟩
    · rw [hvalue]
      positivity
    · rw [hvalue]
      linarith
  · intro hidle
    rw [hbusy, hidle, share_zero]
    decide +kernel

theorem mem_records_of_join {r : ProcessRecord} (h : t.join capacity settings = .ok out)
    (hr : r ∈ out.records) : ∃ g, r = t.joined capacity g := by
  rw [(join_eq_ok_iff.1 h).2, processes] at hr
  have hmem := (ProcessRecord.ranked_perm _ _).mem_iff.1 (List.mem_of_mem_take hr)
  obtain ⟨g, -, rfl⟩ := List.mem_map.1 hmem
  exact ⟨g, rfl⟩

/-- The records of a join divide the disk total, all of it where none is left out. -/
theorem disk_shares_divide_total (h : t.join capacity settings = .ok out)
    (hreads : t.ReadsCounted) (hfits : t.transferred ≤ 9223372036854775807) :
    (∀ r ∈ out.records, r.DividesDisk t) ∧
      ((t.identities.map Identity.pid).dedup.length ≤ settings.limits.processes →
        settings.onlyProcesses = false →
        (∀ p ∈ t.disk.map DiskUse.pid, p ∈ t.identities.map Identity.pid) →
        (out.records.map fun r => t.sectors r.identity.pid).sum = t.transferred) := by
  constructor
  · intro r hr
    obtain ⟨g, rfl⟩ := mem_records_of_join h hr
    exact dividesDisk_joined hreads hfits capacity g
  · intro hroom hall hdisk
    have hperm := (records_perm_of_join h hroom).map fun r => t.sectors r.identity.pid
    have hpids : (t.unranked capacity settings.onlyProcesses).map (·.identity.pid) =
        Table.pids Identity.pid t.identities := by
      rw [pids_unranked, chosen, hall, ← Table.map_pid_distinct]
      simp
    rw [hperm.sum_eq, ← sum_sectors hdisk, ← hpids, List.map_map]
    rfl

/-- A row that is replaced, cancelled writes, a thread, and a process that the disk table lacks. -/
def cancelling : ProcessTables where
  identities := [⟨4, "(writer)", "R", 4, 2, 0, "", 1, 1, 0, 1, []⟩,
    ⟨5, "(thread)", "S", 4, 1, 0, "", 0, 1, 0, 0, []⟩,
    ⟨6, "(idle)", "S", 6, 1, 0, "", 0, 1, 0, 1, []⟩]
  cpu := []
  memory := []
  disk := [⟨4, 1, -9, 0, 0, 0, []⟩, ⟨5, 0, 0, 2, 7, 5, []⟩, ⟨4, 1, 1, 1, 3, 8, []⟩]

theorem disk_shares_divide_total_cancelling :
    let capacity : Capacity := ⟨1000, 100, 512⟩
    let settings : Settings := { missing := .empty, onlyProcesses := false }
    ∃ out, (cancelling.join capacity settings = .ok out ∧ cancelling.ReadsCounted ∧
        cancelling.transferred ≤ 9223372036854775807) ∧
      ((cancelling.identities.map Identity.pid).dedup.length ≤ settings.limits.processes ∧
        settings.onlyProcesses = false ∧ ∀ p ∈ cancelling.disk.map DiskUse.pid,
          p ∈ cancelling.identities.map Identity.pid) ∧
      (out.records.map fun r => r.diskBusy.text).Perm ["33.3", "66.7", "0.0"] ∧
      (∀ r ∈ out.records, r.DividesDisk cancelling) ∧
      (out.records.map fun r => cancelling.sectors r.identity.pid).sum =
        cancelling.transferred := by
  intro capacity settings
  have hjoin : cancelling.join capacity settings = .ok (cancelling.processes capacity settings) :=
    join_eq_ok_iff.2 ⟨rfl, rfl⟩
  have hreads : cancelling.ReadsCounted := by
    have hrows : ∀ d ∈ Table.distinct DiskUse.pid cancelling.disk, 0 ≤ d.readSize := by decide
    intro p d hd
    obtain rfl := hd.1
    exact hrows d (Table.mem_distinct.2 hd)
  have hfits : cancelling.transferred ≤ 9223372036854775807 := by decide
  have hdisk : ∀ p ∈ cancelling.disk.map DiskUse.pid, p ∈ cancelling.identities.map Identity.pid :=
    by decide
  have hroom : (cancelling.identities.map Identity.pid).dedup.length ≤
      settings.limits.processes := by decide
  have htexts : ((cancelling.unranked capacity settings.onlyProcesses).map fun r =>
      r.diskBusy.text) = ["33.3", "66.7", "0.0"] := by decide +kernel
  obtain ⟨hrecords, hsum⟩ := disk_shares_divide_total hjoin hreads hfits
  exact ⟨_, ⟨hjoin, hreads, hfits⟩, ⟨hroom, rfl, hdisk⟩,
    htexts ▸ (records_perm_of_join hjoin hroom).map _, hrecords, hsum hroom rfl hdisk⟩

end ProcessTables

end ActivityBoard
