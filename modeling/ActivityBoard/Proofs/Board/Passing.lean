import ActivityBoard.Json.Printer
import ActivityBoard.Proofs.Board.Document
import ActivityBoard.Proofs.Board.Objects

namespace ActivityBoard.Board

variable {α : Type} {f document : Fields} {limits : Limits} {b : Board}

/-- The object under a key has what the one of the input has, but for the known keys. -/
def SectionKeeps (f document : Fields) (key : String) (known : List String) : Prop :=
  ∀ input, f.objectAt? key = some input →
    ∃ output, document.get? key = some (.obj output) ∧ input.Keeps known output

/-- Each of the rows under a key has what the row of the input has, but for the known keys. -/
def RowsKeep (f document : Fields) (key : String) (limit : Nat) (reads : Fields → α → Prop)
    (toFields : α → Fields) (known : List String) (rows : List α) : Prop :=
  ShowsRows f document key limit reads toFields
    (fun input row => input.Keeps known (toFields row)) rows

/-- The entry of a process has a key that no record writes where the last row of its pid in one of
the four tables has it, and then from the last such table. -/
structure RecordKeeps (f : Fields) (r : ProcessRecord) : Prop where
  pid : r.toFields.get? "pid" = some (.int r.identity.pid)
  appears : ∀ key, key ∉ ProcessRecord.keys → ((r.toFields.get? key).isSome ↔
    ∃ table ∈ ["PRC", "PRM", "PRD", "PRG"], ∃ row,
      f.lastRow? table r.identity.pid = some row ∧ (row.get? key).isSome)
  value : ∀ key, key ∉ ProcessRecord.keys → r.toFields.get? key =
    f.givenBy? ["PRC", "PRM", "PRD", "PRG"] r.identity.pid key

/-- The document has all unknown fields of the input. -/
structure Passes (f document : Fields) (limits : Limits) (b : Board) : Prop where
  top : f.Keeps (Sample.keys ++ ["date", "EXTRA", "HPRC", "PRSUMMARY"]) document
  cpu : SectionKeeps f document "CPU" CpuSummary.keys
  load : SectionKeeps f document "CPL" ["nrcpu"]
  memory : SectionKeeps f document "MEM" MemorySummary.keys
  pressure : SectionKeeps f document "PSI" PressureSummary.keys
  cores : RowsKeep f document "cpu" limits.cpu (fun input row => row = CpuCore.ofFields input)
    CpuCore.toFields CpuTimes.keys b.cores
  volumes : RowsKeep f document "LVM" limits.lvm b.ReadsVolume VolumeSummary.toFields
    VolumeSummary.keys b.volumes
  disks : RowsKeep f document "DSK" limits.disk b.ReadsDisk DiskSummary.toFields DiskSummary.keys
    b.disks
  interfaces : RowsKeep f document "NET" limits.interface
    (fun input row => row = Interface.ofFields input) Interface.toFields ["rpack", "spack"]
    b.interfaces
  numaMemory : RowsKeep f document "NUM" limits.numa ReadsNode NumaNode.toFields NumaNode.keys
    b.numaMemory
  numaCpu : RowsKeep f document "NUC" limits.numa (fun input row => row = input) id [] b.numaCpu
  caches : RowsKeep f document "LLC" limits.llc
    (fun input row => CacheDomain.ofFields? input = some row) CacheDomain.toFields ["occupancy"]
    b.caches
  processes : document.get? "PRSUMMARY" = (f.get? "PRSUMMARY").or
    (some (.arr (b.processes.records.map fun r => .obj r.toFields)))
  records : ∀ r ∈ b.processes.records, RecordKeeps f r

theorem recordKeeps {r : ProcessRecord} (hf : f.Canonical) (h : r.MadeFrom f) :
    RecordKeeps f r := by
  have hvalue : ∀ key, key ∉ ProcessRecord.keys → r.toFields.get? key =
      f.givenBy? ["PRC", "PRM", "PRD", "PRG"] r.identity.pid key := by
    intro key hkey
    have hnone : Fields.get? r.entries key = none := Fields.get?_eq_none hkey
    rw [h.get?_toFields hf, ProcessRecord.passedBy_of_not_mem hkey, hnone, Option.or_none]
  refine ⟨?_, ?_, hvalue⟩
  · have hpassed : ProcessRecord.passedBy "pid" = [] := by decide
    rw [h.get?_toFields hf, hpassed]
    rfl
  · intro key hkey
    rw [hvalue key hkey]
    exact Fields.isSome_givenBy?

theorem sectionKeeps {key : String} {known : List String} (hf : f.Canonical)
    (h : MadeFrom f limits b) (hkey : key ∈ Sample.keys)
    (hwritten : ∀ input, f.objectAt? key = some input → input.Ascending →
      ∃ output, (key, .obj output) ∈ b.written ∧ input.Keeps known output) :
    SectionKeeps f b.document key known := by
  intro input hinput
  obtain ⟨output, hm, hkeeps⟩ := hwritten input hinput (hf.objectAt? hinput).ascending
  exact ⟨output, h.get?_section hf hkey hm, hkeeps⟩

theorem keeps_document (hf : f.Canonical) (h : MadeFrom f limits b) :
    f.Keeps (Sample.keys ++ ["date", "EXTRA", "HPRC", "PRSUMMARY"]) b.document := by
  have hkeys : keys ⊆ Sample.keys ++ ["date", "EXTRA", "HPRC", "PRSUMMARY"] := by decide
  rw [document, h.extra]
  apply Fields.keeps_overlay hf.ascending (List.subset_append_left ..)
  exact List.Subset.trans b.keys_written.subset hkeys

theorem passes_document (hf : f.Canonical) (h : MadeFrom f limits b) :
    Passes f b.document limits b where
  top := keeps_document hf h
  cpu := by
    apply sectionKeeps hf h (by decide)
    intro input hinput hi
    have hcpu := h.cpu
    rw [hinput, Option.getD_some] at hcpu
    refine ⟨_, b.mem_written_cpu, ?_⟩
    rw [hcpu]
    exact CpuSummary.keeps hi _
  load := by
    apply sectionKeeps hf h (by decide)
    intro input hinput _
    have hload := h.load
    rw [hinput] at hload
    exact ⟨_, mem_written_load hload, input.keeps_insert "nrcpu" _⟩
  memory := by
    apply sectionKeeps hf h (by decide)
    intro input hinput hi
    have hmemory := h.memory
    rw [hinput] at hmemory
    exact ⟨_, mem_written_memory hmemory, MemorySummary.keeps hi _⟩
  pressure := by
    apply sectionKeeps hf h (by decide)
    intro input hinput hi
    have hpressure := h.pressure
    rw [hinput] at hpressure
    exact ⟨_, mem_written_pressure hpressure, PressureSummary.keeps hi _⟩
  cores := h.showsRows hf (by decide) (by simp [written]) h.cores
    fun input row hi hread => hread ▸ CpuCore.keeps hi
  volumes := h.showsRows hf (by decide) (by simp [written]) h.volumes
    fun _ _ => VolumeSummary.keeps
  disks := h.showsRows hf (by decide) (by simp [written]) h.disks fun _ _ => DiskSummary.keeps
  interfaces := h.showsRows hf (by decide) (by simp [written]) h.interfaces
    fun input row hi hread => hread ▸ Interface.keeps hi
  numaMemory := h.showsRows hf (by decide) (by simp [written]) h.numaMemory
    fun _ _ => NumaNode.keeps
  numaCpu := h.showsRows hf (by decide) (by simp [written]) h.numaCpu
    fun input row _ hread => hread ▸ Fields.keeps_refl [] input
  caches := h.showsRows hf (by decide) (by simp [written]) h.caches fun _ _ => CacheDomain.keeps
  processes := h.get?_top hf (by decide) (by simp [written, Sample.rows])
  records r hr := recordKeeps hf (h.records r hr)

theorem unknown_fields_pass {text : String} {settings : Settings}
    (h : ofText text settings = .ok b) : ∃ f document, Sample.source? text = some f ∧
      b.toJson = .obj document ∧ Passes f document settings.limits b := by
  obtain ⟨f, hf, hcanonical, hmade⟩ := madeFrom_of_ofText h
  exact ⟨f, b.document, hf, b.toJson_eq, passes_document hcanonical hmade⟩

def stray : Json :=
  .obj [("CPU", .obj [("guest", .int 18446744073709551615)]),
    ("PRC", .arr [.obj [("nice", .int 1), ("pid", .int 5)]]),
    ("PRG", .arr [.obj [("isproc", .int 1), ("nice", .null), ("pid", .int 5)]]),
    ("cpu", .arr [.obj [("id", .int 0)]]),
    ("host", .str "db01")]

theorem unknown_fields_pass_stray :
    let settings : Settings := { limits := { cpu := 1 }, missing := .empty }
    (∃ b, ofText stray.compact settings = .ok b ∧
      ∃ f document, Sample.source? stray.compact = some f ∧ b.toJson = .obj document ∧
        Passes f document settings.limits b) ∧
    ((ofText stray.compact settings).toOption.map fun b =>
      ((b.document.value "host").compact,
        (b.document.objectAt? "CPU").map fun cpu => (cpu.value "guest").compact,
        (b.document.rowsAt "PRSUMMARY").map fun entry => (entry.get? "nice").map Json.compact)) =
          some ("\"db01\"", some "18446744073709551615", [some "null"]) := by
  intro settings
  have hread : (ofText stray.compact settings).toOption.isSome = true := by decide +kernel
  obtain ⟨b, hb⟩ := exists_of_isSome_ofText hread
  exact ⟨⟨b, hb, unknown_fields_pass hb⟩, by decide +kernel⟩

end ActivityBoard.Board
