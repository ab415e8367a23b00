import ActivityBoard.Proofs.Board.WellFormed
import ActivityBoard.Proofs.Json.Roundtrip
import ActivityBoard.Proofs.Sample.Shape

namespace ActivityBoard

theorem Metric.isSome_ofJson?_toJson (m : Metric) : (ofJson? m.toJson).isSome := by
  cases m with
  | malformed text => rfl
  | number x =>
    rw [toJson, Json.ofMetric, Json.ofFloat]
    split
    · rfl
    · split <;> rfl

theorem Fields.not_mem_of_get? {fields : Fields} {key : String} (h : fields.get? key = none) :
    key ∉ fields.map Prod.fst := by
  intro hm
  obtain ⟨field, hfield, rfl⟩ := List.mem_map.1 hm
  exact absurd (List.lookup_eq_none_iff.1 h field hfield) (by simp)

namespace Sample

def tableKeys : List String := ["PRG", "PRC", "PRM", "PRD"]

theorem rowFits_of_free {list : String} (h : texts list = []) (h' : metrics list = [])
    (row : Fields) : RowFits list row := by
  rw [rowFits_iff, h, h']
  exact ⟨List.forall_mem_nil _, List.forall_mem_nil _⟩

theorem ReadFrom.tables_eq {f : Fields} {s : Sample} (h : ReadFrom f s)
    (hnone : ∀ key ∈ tableKeys, f.get? key = none) : s.tables = ⟨[], [], [], []⟩ := by
  have hrows : ∀ key ∈ tableKeys, f.rowsAt key = [] := by
    intro key hkey
    rw [Fields.rowsAt, Fields.value, hnone key hkey]
    rfl
  have hidentities := h.identities
  rw [hrows "PRG" (by decide)] at hidentities
  rw [tables, h.cpuUse, h.memoryUse, h.diskUse, hrows "PRC" (by decide), hrows "PRM" (by decide),
    hrows "PRD" (by decide), List.forall₂_nil_left_iff.1 hidentities]
  rfl

end Sample

def Processes.none : Processes := ⟨[], ⟨0, 0, 0, 0, 0, 0, 0, 0⟩⟩

namespace ProcessTables

theorem failure?_nil (policy : MissingPolicy) : failure? ⟨[], [], [], []⟩ policy = none := rfl

theorem processes_nil (capacity : Capacity) (settings : Settings) :
    processes ⟨[], [], [], []⟩ capacity settings = .none := by
  have hranked : ProcessRecord.ranked settings.sort [] = [] :=
    (ProcessRecord.ranked_perm settings.sort []).eq_nil
  change Processes.mk ((ProcessRecord.ranked settings.sort []).take _) _ = _
  rw [hranked, List.take_nil]
  rfl

end ProcessTables

namespace Board

variable {f : Fields} {limits : Limits} {b : Board} {key : String}

theorem ofSample_of_tables_nil {s : Sample} (h : s.tables = ⟨[], [], [], []⟩)
    (settings : Settings) : ∃ again, ofSample s settings = .ok again ∧ again.processes = .none := by
  refine ⟨_, ofSample_eq_ok_iff.2 ⟨?_, rfl⟩, ?_⟩
  · rw [h]
    exact ProcessTables.failure?_nil _
  · change ProcessTables.processes s.tables _ settings = _
    rw [h]
    exact ProcessTables.processes_nil ..

theorem MadeFrom.get?_known (h : MadeFrom f limits b) (hf : f.Canonical)
    (hk : key ∈ Sample.keys) : b.document.get? key = Fields.get? b.written key := by
  rw [document, h.extra, Fields.get?_overlay hf.ascending b.nodup_written,
    Fields.unknown?_of_mem hk, Option.none_or]

theorem MadeFrom.get?_table (h : MadeFrom f limits b) (hf : f.Canonical) :
    ∀ key ∈ Sample.tableKeys, b.document.get? key = none := by
  intro key hkey
  have hknown : ∀ key ∈ Sample.tableKeys, key ∈ Sample.keys ∧ key ∉ keys := by decide
  obtain ⟨hsection, hwritten⟩ := hknown key hkey
  rw [h.get?_known hf hsection]
  exact Fields.get?_eq_none fun hm => hwritten (b.keys_written.subset hm)

section Fits

theorem allows_of_kept {α : Type} {made : Fields → α → Prop} {toFields : α → Fields}
    {rows : List α} {limit : Nat} {p : Fields → Prop} (h : MadeFrom f limits b)
    (hf : f.Canonical) (hk : key ∈ Sample.keys) (hm : Sample.rows key toFields rows ∈ b.written)
    (hrows : Kept limit made (f.rowsAt key) rows)
    (hp : ∀ input row, input.Ascending → made input row → p (toFields row)) :
    b.document.Allows (Json.IsRows p) key := by
  rw [Fields.allows_of_get? (h.get?_section hf hk hm), Json.isRows_arr_iff]
  intro item hitem
  obtain ⟨row, hrow, rfl⟩ := List.mem_map.1 hitem
  obtain ⟨input, hinput, hmade⟩ := hrows.exists_of_mem hrow
  exact ⟨_, rfl, hp input row (hf.rowsAt hinput).ascending hmade⟩

theorem allows_section {o : Option Fields} (h : MadeFrom f limits b) (hf : f.Canonical)
    (hk : key ∈ Sample.keys) (hget : Fields.get? b.written key = o.map .obj) :
    b.document.Allows (fun v => v = .null ∨ v.IsObject) key := by
  intro v hv
  rw [h.get?_known hf hk, hget] at hv
  obtain ⟨inner, -, rfl⟩ := Option.map_eq_some_iff.1 hv
  exact .inr ⟨inner, rfl⟩

theorem allows_table (h : MadeFrom f limits b) (hf : f.Canonical) {p : Json → Prop} :
    ∀ key ∈ Sample.tableKeys, b.document.Allows p key := by
  intro key hkey v hv
  rw [h.get?_table hf key hkey] at hv
  cases hv

theorem rowFits_volume {input : Fields} {v : VolumeSummary} (hi : input.Ascending)
    (h : b.ReadsVolume input v) : Sample.RowFits "LVM" v.toFields := by
  have hname := VolumeSummary.get?_name hi h
  rw [Sample.rowFits_iff]
  simp [Sample.texts, Sample.metrics, Fields.allows_of_get? hname, Json.IsText]

theorem rowFits_node {input : Fields} {n : NumaNode} (hi : input.Ascending)
    (h : ReadsNode input n) : Sample.RowFits "NUM" n.toFields := by
  have hfragmentation := NumaNode.get?_fragmentation hi h
  rw [Sample.rowFits_iff]
  simp [Sample.texts, Sample.metrics, Fields.allows_of_get? hfragmentation, Figure.toJson,
    Metric.ofJson?]

theorem rowFits_cache {input : Fields} {row : CacheDomain} (hi : input.Ascending)
    (h : CacheDomain.ofFields? input = some row) : Sample.RowFits "LLC" row.toFields := by
  have hoccupancy := CacheDomain.get?_occupancy hi h
  rw [Sample.rowFits_iff]
  simp [Sample.texts, Sample.metrics, Fields.allows_of_get? hoccupancy,
    Metric.isSome_ofJson?_toJson]

theorem MadeFrom.fits_document (h : MadeFrom f limits b) (hf : f.Canonical) :
    Sample.Fits b.document where
  cpu := by
    rw [Fields.allows_of_get? (h.get?_section hf (by decide) b.mem_written_cpu)]
    exact ⟨_, rfl⟩
  sections := by
    have hload : Fields.get? b.written "CPL" = b.load.map .obj := by
      simp [written, Sample.get?_append, Sample.get?_optional, Sample.rows, Fields.get?_cons,
        Sample.get?_nil]
    have hmemory : Fields.get? b.written "MEM" =
        (b.memory.map MemorySummary.toFields).map .obj := by
      simp [written, Sample.get?_append, Sample.get?_optional, Sample.rows, Fields.get?_cons,
        Sample.get?_nil]
    have hpressure : Fields.get? b.written "PSI" =
        (b.pressure.map PressureSummary.toFields).map .obj := by
      simp [written, Sample.get?_append, Sample.get?_optional, Sample.rows, Fields.get?_cons,
        Sample.get?_nil]
    simp only [Sample.sections, List.forall_mem_cons]
    exact ⟨allows_section h hf (by decide) hload, allows_section h hf (by decide) hmemory,
      allows_section h hf (by decide) hpressure, List.forall_mem_nil _⟩
  lists := by
    have hcores : Sample.rows "cpu" CpuCore.toFields b.cores ∈ b.written := by simp [written]
    have hdisks : Sample.rows "DSK" DiskSummary.toFields b.disks ∈ b.written := by simp [written]
    have hinterfaces : Sample.rows "NET" Interface.toFields b.interfaces ∈ b.written := by
      simp [written]
    have hnumaCpu : Sample.rows "NUC" id b.numaCpu ∈ b.written := by simp [written]
    simp only [Sample.lists, List.forall_mem_cons]
    exact ⟨allows_of_kept h hf (by decide) hcores h.cores
        fun _ _ _ _ => Sample.rowFits_of_free rfl rfl _,
      allows_of_kept h hf (by decide) (by simp [written]) h.volumes
        fun _ _ hi => rowFits_volume hi,
      allows_of_kept h hf (by decide) hdisks h.disks
        fun _ _ _ _ => Sample.rowFits_of_free rfl rfl _,
      allows_of_kept h hf (by decide) hinterfaces h.interfaces
        fun _ _ _ _ => Sample.rowFits_of_free rfl rfl _,
      allows_of_kept h hf (by decide) (by simp [written]) h.numaMemory
        fun _ _ hi => rowFits_node hi,
      allows_of_kept h hf (by decide) hnumaCpu h.numaCpu
        fun _ _ _ _ => Sample.rowFits_of_free rfl rfl _,
      allows_of_kept h hf (by decide) (by simp [written]) h.caches
        fun _ _ hi => rowFits_cache hi,
      allows_table h hf "PRG" (by decide), allows_table h hf "PRC" (by decide),
      allows_table h hf "PRM" (by decide), allows_table h hf "PRD" (by decide), List.forall_mem_nil _⟩

end Fits

/-- The document has no process tables, and it is read as a sample of which a board without
processes is made under all settings. -/
structure Processless (b : Board) : Prop where
  absent : ∃ fields, b.toJson = .obj fields ∧
    ∀ key ∈ Sample.tableKeys, key ∉ fields.map Prod.fst
  reread : ∃ s, Sample.ofText b.toJson.compact = .ok s ∧ Sample.ofText b.toJson.pretty = .ok s ∧
    s.tables = ⟨[], [], [], []⟩ ∧
    ∀ settings, ∃ again, ofSample s settings = .ok again ∧ again.processes = .none

/-- The document of a board in which no sum exceeds 64 bits is a sample without processes. -/
theorem processless_of_ofText {text : String} {settings : Settings} {b : Board}
    (h : ofText text settings = .ok b) (hw : b.toJson.Within64) : b.Processless := by
  obtain ⟨f, -, hf, hmade⟩ := madeFrom_of_ofText h
  have hnone := hmade.get?_table hf
  have hstorable := (wellFormed_toJson h).storable hw
  obtain ⟨s, hs⟩ := Sample.exists_ofJson_obj_iff.2 (hmade.fits_document hf)
  have hread := Sample.readFrom_of_ofFields? (Sample.ofJson_obj_eq_ok_iff.1 hs)
  have htables := hread.tables_eq hnone
  have habsent := fun key hkey => Fields.not_mem_of_get? (hnone key hkey)
  refine ⟨⟨b.document, b.toJson_eq, habsent⟩, s, ?_, ?_, htables, ofSample_of_tables_nil htables⟩
  · rw [Sample.ofText, Json.ofText?_compact hstorable]
    exact hs
  · rw [Sample.ofText, Json.ofText?_pretty hstorable]
    exact hs

def crowded : Json :=
  .obj [("NUM", .arr [.obj [("frag", .str "n/a")]]), ("PRG", .arr [.obj [("isproc", .int 1)]])]

theorem processless_of_ofText_crowded :
    ∃ b, ofText crowded.compact { limits := { numa := 1 }, missing := .empty } = .ok b ∧
      b.processes.records.length = 1 ∧ b.toJson.Within64 ∧ b.Processless := by
  have hcheck : (ofText crowded.compact
      { limits := { numa := 1 }, missing := .empty }).toOption.any (fun b =>
        decide (b.processes.records.length = 1 ∧ b.toJson.Within64)) = true := by decide +kernel
  obtain ⟨b, hb, hlength, hw⟩ := exists_of_any_ofText hcheck
  exact ⟨b, hb, hlength, hw, processless_of_ofText hb hw⟩

end Board

end ActivityBoard
