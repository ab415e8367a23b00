import ActivityBoard.Board.Basic
import ActivityBoard.Proofs.Process.Lookup
import ActivityBoard.Proofs.Sample.Reading

namespace ActivityBoard

def Sample.tables (s : Sample) : ProcessTables := ⟨s.identities, s.cpuUse, s.memoryUse, s.diskUse⟩

namespace Board

def cut (limits : Limits) (b : Board) : Board :=
  { b with
    cores := b.cores.take limits.cpu
    volumes := b.volumes.take limits.lvm
    disks := b.disks.take limits.disk
    interfaces := b.interfaces.take limits.interface
    numaMemory := b.numaMemory.take limits.numa
    numaCpu := b.numaCpu.take limits.numa
    caches := b.caches.take limits.llc
    processes :=
      { b.processes with records := b.processes.records.take limits.processes } }

/-- The board with all rows of a sample, none of which is missed. -/
def uncut (s : Sample) (settings : Settings) : Board :=
  let capacity := Capacity.ofSample s.cpu s.memory
  let records := s.tables.unranked capacity settings.onlyProcesses
  { timestamp := s.timestamp
    elapsed := s.elapsed
    date := Calendar.dateText s.timestamp (settings.zone.offset s.timestamp)
    cpu := CpuSummary.ofTotals s.cpu capacity
    cores := CpuCore.ranked s.cores
    load := s.load.map fun fields => fields.insert "nrcpu" (.int s.cpu.cores)
    memory := s.memory.map fun stats => ⟨stats, s.numaMemory.length⟩
    pressure := s.pressure.map fun pressure => ⟨pressure, s.elapsed⟩
    volumes := s.volumes.map fun volume =>
      VolumeSummary.ofVolume volume capacity.coreMillis s.elapsed
    disks := DiskSummary.ranked (s.disks.map fun disk =>
      DiskSummary.ofDisk disk capacity.coreMillis s.elapsed)
    interfaces := Interface.ranked s.interfaces
    numaMemory := NumaNode.number s.numaMemory
    numaCpu := s.numaCpu
    caches := CacheDomain.ranked s.caches
    capacity := capacity
    processes :=
      { records := ProcessRecord.ranked settings.sort records
        summary := ProcessSummary.tally (Table.distinct Identity.pid s.identities) records }
    extra := s.extra }

/-- The limits of the settings do nothing but cut, and only the policy decides on failure. -/
theorem ofSample_eq (s : Sample) (settings : Settings) : ofSample s settings =
    (s.tables.failure? settings.missing).elim
      (.ok ((uncut s settings).cut settings.limits)) .error := by
  change (s.tables.join (Capacity.ofSample s.cpu s.memory) settings >>= _) = _
  rw [ProcessTables.join_eq]
  cases s.tables.failure? settings.missing <;> rfl

theorem ofSample_eq_ok_iff {s : Sample} {settings : Settings} {board : Board} :
    ofSample s settings = .ok board ↔ s.tables.failure? settings.missing = none ∧
      board = (uncut s settings).cut settings.limits := by
  rw [ofSample_eq]
  cases s.tables.failure? settings.missing <;> simp [eq_comm]

theorem ofText_eq_ok {text : String} {settings : Settings} {board : Board}
    (h : ofText text settings = .ok board) :
    ∃ s, Sample.ofText text = .ok s ∧ ofSample s settings = .ok board := by
  rw [ofText] at h
  cases hs : Sample.ofText text with
  | error e =>
    rw [hs] at h
    cases h
  | ok s =>
    cases hb : ofSample s settings with
    | error e =>
      simp only [hs, hb] at h
      cases h
    | ok b =>
      simp only [hs, hb] at h
      cases h
      exact ⟨s, rfl, hb⟩

theorem exists_of_isSome_ofText {text : String} {settings : Settings}
    (h : (ofText text settings).toOption.isSome = true) :
    ∃ board, ofText text settings = .ok board := by
  cases hb : ofText text settings with
  | error e =>
    rw [hb] at h
    cases h
  | ok board => exact ⟨board, rfl⟩

theorem exists_of_any_ofText {text : String} {settings : Settings} {p : Board → Prop}
    [DecidablePred p] (h : (ofText text settings).toOption.any (fun b => decide (p b)) = true) :
    ∃ board, ofText text settings = .ok board ∧ p board :=
  exists_of_any h

end Board

end ActivityBoard
