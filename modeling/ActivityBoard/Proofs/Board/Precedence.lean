import ActivityBoard.Json.Printer
import ActivityBoard.Proofs.Board.Document
import ActivityBoard.Proofs.Board.Objects

/-!
Which value is shown where an unknown field of the input has a key of the board. The sections of
processor, load, memory and pressure show what was derived; everywhere else the unknown field is put
over it.
-/
namespace ActivityBoard

namespace ProcessRecord

variable {f : Fields} {r : ProcessRecord}

def shares (r : ProcessRecord) : List (String × Json) :=
  [("cpubusy", r.cpuBusy.toJson), ("membusy", r.memoryBusy.toJson),
    ("diskbusy", r.diskBusy.toJson)]

/-- The entry shows the last identity of its pid. The rows of memory and disk do not know the keys
of group and kind, so theirs come first. -/
structure ShowsIdentity (f : Fields) (r : ProcessRecord) (g : Identity) : Prop where
  identity : (f.lastRow? "PRG" r.identity.pid).bind Identity.ofFields? = some g
  pid : r.toFields.get? "pid" = some (.int g.pid)
  group : r.toFields.get? "tgid" =
    (f.givenBy? ["PRM", "PRD"] r.identity.pid "tgid").or (some (.int g.group))
  isProcess : r.toFields.get? "isproc" =
    (f.givenBy? ["PRM", "PRD"] r.identity.pid "isproc").or (some (.int g.isProcess))

theorem MadeFrom.get?_entry (h : MadeFrom f r) (hf : f.Canonical) {key : String} {value : Json}
    (hm : (key, value) ∈ r.entries) :
    r.toFields.get? key = (f.givenBy? (passedBy key) r.identity.pid key).or (some value) := by
  have hvalue : Fields.get? r.entries key = some value :=
    (Fields.get?_eq_some_iff_mem r.nodup_entries).2 hm
  rw [h.get?_toFields hf, hvalue]

theorem MadeFrom.showsIdentity (h : MadeFrom f r) (hf : f.Canonical) :
    ShowsIdentity f r r.identity where
  identity := h.identity
  pid := by
    have hpassed : passedBy "pid" = [] := by decide
    have hm : ("pid", .int r.identity.pid) ∈ r.entries := List.mem_cons_self
    rw [h.get?_entry hf hm, hpassed]
    rfl
  group := by
    have hpassed : passedBy "tgid" = ["PRM", "PRD"] := by decide
    rw [← hpassed]
    exact h.get?_entry hf (by simp [entries])
  isProcess := by
    have hpassed : passedBy "isproc" = ["PRM", "PRD"] := by decide
    rw [← hpassed]
    exact h.get?_entry hf (by simp [entries])

theorem MadeFrom.get?_share (h : MadeFrom f r) (hf : f.Canonical) {field : String × Json}
    (hm : field ∈ r.shares) : r.toFields.get? field.1 =
      (f.givenBy? ["PRC", "PRM", "PRD", "PRG"] r.identity.pid field.1).or (some field.2) := by
  have hpassed : ∀ key ∈ ["cpubusy", "membusy", "diskbusy"],
      passedBy key = ["PRC", "PRM", "PRD", "PRG"] := by decide
  have hentry : field ∈ r.entries := by
    have hsub : r.shares ⊆ r.entries := by simp [shares, entries]
    exact hsub hm
  rw [← hpassed field.1 (List.mem_map_of_mem (f := Prod.fst) hm)]
  exact h.get?_entry hf hentry

end ProcessRecord

namespace Board

variable {α : Type} {f document : Fields} {limits : Limits} {b : Board} {text : String}
  {settings : Settings}

def derived (b : Board) : List (String × Json) :=
  [("date", .str b.date), ("EXTRA", .obj b.capacity.toFields),
    ("HPRC", .obj b.processes.summary.toFields),
    Sample.rows "PRSUMMARY" ProcessRecord.toFields b.processes.records]

/-- The rows under a key show their derived values, unless the row of the input that they are read
from has the key. -/
def RowsShow (f document : Fields) (key : String) (limit : Nat) (reads : Fields → α → Prop)
    (toFields : α → Fields) (derived : α → List (String × Json)) (rows : List α) : Prop :=
  ShowsRows f document key limit reads toFields (fun input row => ∀ field ∈ derived row,
    (toFields row).get? field.1 = (input.get? field.1).or (some field.2)) rows

structure ShowsDerived (f document : Fields) (limits : Limits) (b : Board) : Prop where
  cpu : ∃ output : Fields, document.get? "CPU" = some (.obj output) ∧
    output.get? "cpubusy" = some b.cpu.busy.toJson
  load : ∀ output : Fields, b.load = some output → document.get? "CPL" = some (.obj output) ∧
    output.get? "nrcpu" = some (.int b.cpu.totals.cores)
  memory : ∀ m, b.memory = some m → ∃ output : Fields, document.get? "MEM" = some (.obj output) ∧
    output.get? "numanode" = some (.int m.nodes)
  pressure : ∀ p, b.pressure = some p → ∃ output : Fields,
    document.get? "PSI" = some (.obj output) ∧
      ∀ field ∈ p.derived, output.get? field.1 = some field.2
  volumes : RowsShow f document "LVM" limits.lvm b.ReadsVolume VolumeSummary.toFields
    (fun v => v.rates.entries "lvmbusy") b.volumes
  disks : RowsShow f document "DSK" limits.disk b.ReadsDisk DiskSummary.toFields
    (fun d => d.rates.entries "diskbusy") b.disks
  numaMemory : RowsShow f document "NUM" limits.numa ReadsNode NumaNode.toFields
    (fun n => [("numanodeId", .int n.index)]) b.numaMemory
  top : ∀ field ∈ b.derived, document.get? field.1 = (f.get? field.1).or (some field.2)
  records : ∀ r ∈ b.processes.records, ∀ field ∈ r.shares, r.toFields.get? field.1 =
    (f.givenBy? ["PRC", "PRM", "PRD", "PRG"] r.identity.pid field.1).or (some field.2)

theorem showsDerived_document (hf : f.Canonical) (h : MadeFrom f limits b) :
    ShowsDerived f b.document limits b where
  cpu := ⟨_, h.get?_section hf (by decide) b.mem_written_cpu, b.cpu.get?_busy⟩
  load := by
    intro output hload
    refine ⟨h.get?_section hf (by decide) (mem_written_load hload), ?_⟩
    rw [h.load] at hload
    obtain ⟨input, _, rfl⟩ := Option.map_eq_some_iff.1 hload
    rw [Fields.get?_insert, if_pos rfl]
  memory := by
    intro m hmemory
    exact ⟨_, h.get?_section hf (by decide) (mem_written_memory hmemory), m.get?_nodes⟩
  pressure := by
    intro p hpressure
    refine ⟨_, h.get?_section hf (by decide) (mem_written_pressure hpressure), ?_⟩
    intro field hm
    exact p.get?_derived hm
  volumes := h.showsRows hf (by decide) (by simp [written]) h.volumes
    fun input row hi hread field hm => VolumeSummary.get?_rates hi hread hm
  disks := h.showsRows hf (by decide) (by simp [written]) h.disks
    fun input row hi hread field hm => DiskSummary.get?_rates hi hread hm
  numaMemory := by
    apply h.showsRows hf (by decide) (by simp [written]) h.numaMemory
    intro input row hi hread field hm
    obtain rfl := List.mem_singleton.1 hm
    exact NumaNode.get?_index hi hread
  top := by
    intro field hm
    have hkeys : ∀ key ∈ ["date", "EXTRA", "HPRC", "PRSUMMARY"], key ∉ Sample.keys := by decide
    have hwritten : b.derived ⊆ b.written := by simp [derived, written]
    exact h.get?_top hf (hkeys _ (List.mem_map_of_mem (f := Prod.fst) hm)) (hwritten hm)
  records r hr field hm := (h.records r hr).get?_share hf hm

/-- Each entry of a process is that of a record, which shows its identity; the list itself is shown
unless the input has one of its name. -/
theorem identities_shown (h : ofText text settings = .ok b) : ∃ f document : Fields,
    Sample.source? text = some f ∧ b.toJson = .obj document ∧
    document.get? "PRSUMMARY" = (f.get? "PRSUMMARY").or
      (some (.arr (b.processes.records.map fun r => .obj r.toFields))) ∧
    ∀ r ∈ b.processes.records, ∃ g, r.ShowsIdentity f g := by
  obtain ⟨f, hf, hcanonical, hmade⟩ := madeFrom_of_ofText h
  refine ⟨f, b.document, hf, b.toJson_eq, ?_, ?_⟩
  · exact hmade.get?_top hcanonical (by decide) (by simp [written, Sample.rows])
  · intro r hr
    exact ⟨r.identity, (hmade.records r hr).showsIdentity hcanonical⟩

def disguised : Json :=
  .obj [("PRC", .arr [.obj [("pid", .int 5)]]),
    ("PRD", .arr [.obj [("isproc", .int 0), ("pid", .int 5)]]),
    ("PRG", .arr [.obj [("isproc", .int 1), ("name", .str "(a)"), ("pid", .int 5),
      ("tgid", .int 5)]]),
    ("PRM", .arr [.obj [("pid", .int 5), ("tgid", .int 77)]])]

theorem identities_shown_disguised : ∃ b, ofText disguised.compact {} = .ok b ∧
    ∃ f document : Fields, Sample.source? disguised.compact = some f ∧
      b.toJson = .obj document ∧
      document.get? "PRSUMMARY" = (f.get? "PRSUMMARY").or
        (some (.arr (b.processes.records.map fun r => .obj r.toFields))) ∧
      ∀ r ∈ b.processes.records, ∃ g, r.ShowsIdentity f g := by
  have hread : (ofText disguised.compact {}).toOption.isSome = true := by decide +kernel
  obtain ⟨b, hb⟩ := exists_of_isSome_ofText hread
  exact ⟨b, hb, identities_shown hb⟩

/-- Its identity is not what its entry shows. -/
theorem disguised_identity_overridden :
    ((Sample.source? disguised.compact).bind fun f =>
      ((f.lastRow? "PRG" 5).bind Identity.ofFields?).map fun g => (g.pid, g.group, g.isProcess)) =
        some (5, 5, 1) ∧
    ((ofText disguised.compact {}).toOption.map fun b =>
      (b.document.rowsAt "PRSUMMARY").map fun entry =>
        ["pid", "tgid", "isproc"].map fun key => (entry.value key).compact) =
          some [["5", "77", "0"]] := by
  decide +kernel

theorem derived_shown (h : ofText text settings = .ok b) : ∃ f document : Fields,
    Sample.source? text = some f ∧ b.toJson = .obj document ∧
    ShowsDerived f document settings.limits b := by
  obtain ⟨f, hf, hcanonical, hmade⟩ := madeFrom_of_ofText h
  exact ⟨f, b.document, hf, b.toJson_eq, showsDerived_document hcanonical hmade⟩

def foregone : Json :=
  .obj [("EXTRA", .obj [("mstot", .int 1)]), ("HPRC", .obj []), ("PRSUMMARY", .arr [.int 1]),
    ("date", .str "never"), ("timestamp", .int 0)]

theorem derived_shown_foregone : ∃ b, ofText foregone.compact {} = .ok b ∧
    ∃ f document : Fields, Sample.source? foregone.compact = some f ∧
      b.toJson = .obj document ∧ ShowsDerived f document {} b := by
  have hread : (ofText foregone.compact {}).toOption.isSome = true := by decide +kernel
  obtain ⟨b, hb⟩ := exists_of_isSome_ofText hread
  exact ⟨b, hb, derived_shown hb⟩

/-- None of the values that were derived for it is shown at the top of its document. -/
theorem foregone_derived_overridden : ((ofText foregone.compact {}).toOption.map fun b =>
    b.derived.map fun field => (b.document.value field.1).compact == field.2.compact) =
      some [false, false, false, false] := by
  decide +kernel

end Board

end ActivityBoard
