import ActivityBoard.Proofs.Board.Document
import ActivityBoard.Proofs.Board.Objects
import ActivityBoard.Proofs.Json.WellFormed
import ActivityBoard.Proofs.Sample.Roundtrip

/-!
The document of a board has its fields in order and only finite numbers, whatever the sample: what
passes through was well-formed, and what the board writes is so too.
-/
namespace ActivityBoard

variable {depth : Nat}

namespace Fields

variable {f entries : Fields}

theorem Storable.fields (h : f.Storable depth) : ∀ field ∈ f, Json.WellFormed depth field.2 :=
  fun field hf => ((storable_iff.1 h).2 field hf).wellFormed

theorem Storable.without (h : f.Storable depth) (keys : List String) :
    (f.without keys).Storable depth := by
  obtain ⟨hascending, hfields⟩ := storable_iff.1 h
  exact storable_iff.2 ⟨hascending.without keys, fun field hm => hfields field
    (List.mem_filter.1 hm).1⟩

theorem wellFormed_overlay (h : ∀ field ∈ entries, Json.WellFormed depth field.2)
    (hf : f.Storable depth) (known : List String) :
    ((ofList entries).insertAll (f.without known)).WellFormed depth :=
  (wellFormed_ofList h).insertAll (hf.without known).fields

end Fields

section Entries

theorem CpuTimes.wellFormed_entries (t : CpuTimes) :
    ∀ field ∈ t.entries, Json.WellFormed depth field.2 := by
  simp [entries, Json.WellFormed.int]

theorem DeviceIo.wellFormed_entries (io : DeviceIo) :
    ∀ field ∈ io.entries, Json.WellFormed depth field.2 := by
  simp [entries, Json.WellFormed.int]

theorem DeviceRates.wellFormed_entries (r : DeviceRates) (busyKey : String) :
    ∀ field ∈ r.entries busyKey, Json.WellFormed depth field.2 := by
  simp [entries, Figure.toJson, Json.WellFormed.str]

theorem Stall.wellFormed_entries (s : Stall) (name : String) :
    ∀ field ∈ s.entries name, Json.WellFormed depth field.2 := by
  simp [entries, Json.WellFormed.int, Json.wellFormed_ofFloat]

theorem PressureSummary.wellFormed_derived (p : PressureSummary) :
    ∀ field ∈ p.derived, Json.WellFormed depth field.2 := by
  simp [derived, Json.WellFormed.str, Json.wellFormed_ofMetric]

theorem ProcessRecord.wellFormed_dash (meaningful : Bool) (n : Int) :
    Json.WellFormed depth (dash meaningful n) := by
  cases meaningful
  · exact .str "-"
  · exact .int n

theorem ProcessRecord.wellFormed_entries (r : ProcessRecord) :
    ∀ field ∈ r.entries, Json.WellFormed depth field.2 := by
  simp [entries, MemoryUse.sizes, DiskUse.counters, Figure.toJson, wellFormed_dash,
    Json.WellFormed.str, Json.WellFormed.int]

theorem Metric.wellFormed_toJson (m : Metric) : Json.WellFormed depth m.toJson := by
  cases m with
  | number x => exact Json.wellFormed_ofMetric x
  | malformed text => exact .str text

end Entries

section Objects

variable {input : Fields}

theorem CpuSummary.wellFormed (hi : input.Storable depth) (capacity : Capacity) :
    (ofTotals (CpuTotals.ofFields input) capacity).toFields.WellFormed depth := by
  apply Fields.WellFormed.insert _ _ (.str _)
  apply Fields.wellFormed_overlay _ hi
  exact List.forall_mem_cons.2 ⟨.int _, List.forall_mem_cons.2
    ⟨.int _, CpuTimes.wellFormed_entries _⟩⟩

theorem CpuCore.wellFormed (hi : input.Storable depth) :
    (ofFields input).toFields.WellFormed depth :=
  Fields.wellFormed_overlay (CpuTimes.wellFormed_entries _) hi _

theorem MemorySummary.wellFormed (hi : input.Storable depth) (nodes : Nat) :
    (toFields ⟨MemoryStats.ofFields input, nodes⟩).WellFormed depth := by
  apply Fields.WellFormed.insert _ _ (.int _)
  apply Fields.wellFormed_overlay _ hi
  exact List.forall_mem_singleton.2 (.int _)

theorem PressureSummary.wellFormed (hi : input.Storable depth) (elapsed : Int) :
    (toFields ⟨Pressure.ofFields input, elapsed⟩).WellFormed depth := by
  rw [toFields_eq]
  apply Fields.WellFormed.insertAll _ (wellFormed_derived _)
  apply Fields.wellFormed_overlay _ hi
  simp only [List.forall_mem_append]
  have hstall (s : Stall) (name : String) : ∀ field ∈ s.entries name,
      Json.WellFormed depth field.2 := s.wellFormed_entries name
  exact ⟨⟨⟨⟨hstall _ _, hstall _ _⟩, hstall _ _⟩, hstall _ _⟩, hstall _ _⟩

theorem VolumeSummary.wellFormed {b : Board} {v : VolumeSummary} (hi : input.Storable depth)
    (h : b.ReadsVolume input v) : v.toFields.WellFormed depth := by
  obtain ⟨volume, hread, rfl⟩ := h
  obtain ⟨name, -, rfl⟩ := Option.map_eq_some_iff.1 hread
  apply Fields.wellFormed_overlay _ hi
  exact List.forall_mem_cons.2 ⟨.str _, List.forall_mem_append.2
    ⟨DeviceIo.wellFormed_entries _, DeviceRates.wellFormed_entries _ _⟩⟩

theorem DiskSummary.wellFormed {b : Board} {d : DiskSummary} (hi : input.Storable depth)
    (h : b.ReadsDisk input d) : d.toFields.WellFormed depth := by
  obtain rfl := h
  apply Fields.wellFormed_overlay _ hi
  exact List.forall_mem_append.2 ⟨DeviceIo.wellFormed_entries _, DeviceRates.wellFormed_entries _ _⟩

theorem Interface.wellFormed (hi : input.Storable depth) :
    (ofFields input).toFields.WellFormed depth := by
  apply Fields.wellFormed_overlay _ hi
  exact List.forall_mem_cons.2 ⟨.int _, List.forall_mem_singleton.2 (.int _)⟩

theorem NumaNode.wellFormed {n : NumaNode} (hi : input.Storable depth)
    (h : Board.ReadsNode input n) : n.toFields.WellFormed depth := by
  obtain ⟨node, i, hread, rfl⟩ := h
  obtain ⟨fragmentation, -, rfl⟩ := Option.map_eq_some_iff.1 hread
  apply Fields.wellFormed_overlay _ hi
  exact List.forall_mem_cons.2 ⟨.int _, List.forall_mem_singleton.2 (.str _)⟩

theorem CacheDomain.wellFormed {row : CacheDomain} (hi : input.Storable depth)
    (h : ofFields? input = some row) : row.toFields.WellFormed depth := by
  obtain ⟨occupancy, -, rfl⟩ := Option.map_eq_some_iff.1 h
  apply Fields.wellFormed_overlay _ hi
  exact List.forall_mem_singleton.2 (Metric.wellFormed_toJson occupancy)

theorem Capacity.wellFormed (c : Capacity) : c.toFields.WellFormed depth := by
  apply Fields.wellFormed_ofList
  simp [Json.wellFormed_ofMetric]

theorem ProcessSummary.wellFormed (s : ProcessSummary) : s.toFields.WellFormed depth := by
  apply Fields.wellFormed_ofList
  simp [Json.WellFormed.int]

namespace ProcessRecord

variable {f : Fields} {r : ProcessRecord}

theorem storable_unknownRow (hf : f.Storable (depth + 2)) (p : Nat)
    (table : String × List String) : (unknownRow f p table).Storable depth := by
  rw [unknownRow]
  cases hrow : f.lastRow? table.1 p with
  | none => exact Fields.storable_nil depth
  | some row => exact (hf.rowsAt (Table.latest?_eq_some_iff.1 hrow).mem).without table.2

theorem wellFormed (hf : f.Storable (depth + 2)) (h : MadeFrom f r) :
    r.toFields.WellFormed depth := by
  have hunknown (table : String × List String) :=
    (storable_unknownRow hf r.identity.pid table).fields
  have hextra : ∀ field ∈ r.extra, Json.WellFormed depth field.2 := by
    intro field hfield
    rw [h.extra_eq] at hfield
    obtain hfield | hfield := Fields.mem_insertAll hfield
    · exact hunknown _ field hfield
    obtain hfield | hfield := Fields.mem_insertAll hfield
    · exact hunknown _ field hfield
    obtain hfield | hfield := Fields.mem_insertAll hfield
    · exact hunknown _ field hfield
    · exact hunknown _ field hfield
  exact (Fields.wellFormed_ofList r.wellFormed_entries).insertAll hextra

end ProcessRecord

end Objects

theorem Kept.exists_of_mem {α : Type} {made : Fields → α → Prop} {inputs : List Fields}
    {limit : Nat} {rows : List α} (h : Kept limit made inputs rows) {row : α} (hrow : row ∈ rows) :
    ∃ input ∈ inputs, made input row := by
  obtain ⟨kept, hsub, -, hall⟩ := h
  obtain ⟨input, hinput, hmade⟩ := exists_of_forall₂_right hall hrow
  exact ⟨input, hsub.subset hinput, hmade⟩

namespace Board

variable {α : Type} {f : Fields} {limits : Limits} {b : Board} {key : String}

theorem wellFormed_rows {toFields : α → Fields} {rows : List α}
    (h : ∀ row ∈ rows, (toFields row).WellFormed depth) :
    Json.WellFormed (depth + 2) (Sample.rows key toFields rows).2 := by
  apply Json.WellFormed.arr
  intro v hv
  obtain ⟨row, hrow, rfl⟩ := List.mem_map.1 hv
  exact h row hrow

theorem wellFormed_kept {made : Fields → α → Prop} {toFields : α → Fields} {limit : Nat}
    {rows : List α} (hf : f.Storable (depth + 2)) (h : Kept limit made (f.rowsAt key) rows)
    (hmade : ∀ input row, input.Storable depth → made input row →
      (toFields row).WellFormed depth) :
    Json.WellFormed (depth + 2) (Sample.rows key toFields rows).2 := by
  apply wellFormed_rows
  intro row hrow
  obtain ⟨input, hinput, hread⟩ := h.exists_of_mem hrow
  exact hmade input row (hf.rowsAt hinput) hread

theorem wellFormed_optional {o : Option Fields} (h : ∀ inner ∈ o, inner.WellFormed depth) :
    ∀ field ∈ Sample.optional key o, Json.WellFormed (depth + 1) field.2 := by
  intro field hfield
  cases o with
  | none => cases hfield
  | some inner =>
    obtain rfl := List.mem_singleton.1 hfield
    exact h inner rfl

theorem wellFormed_section {make : Fields → α} {toFields : α → Fields} {o : Option α}
    (hf : f.Storable (depth + 1)) (ho : o = (f.objectAt? key).map make)
    (h : ∀ input : Fields, input.Storable depth → (toFields (make input)).WellFormed depth) :
    ∀ field ∈ Sample.optional key (o.map toFields), Json.WellFormed (depth + 1) field.2 := by
  apply wellFormed_optional
  intro inner hinner
  rw [ho, Option.map_map] at hinner
  obtain ⟨input, hinput, rfl⟩ := Option.map_eq_some_iff.1 hinner
  exact h input (hf.objectAt? hinput)

theorem MadeFrom.wellFormed_written (h : MadeFrom f limits b) (hf : f.Storable (depth + 2)) :
    ∀ field ∈ b.written, Json.WellFormed (depth + 2) field.2 := by
  have hcpu : Json.WellFormed (depth + 2) (.obj b.cpu.toFields) := by
    rw [h.cpu]
    exact CpuSummary.wellFormed (hf.objectAt?_getD "CPU") _
  have hload : ∀ field ∈ Sample.optional "CPL" (b.load.map id),
      Json.WellFormed (depth + 2) field.2 :=
    wellFormed_section hf h.load fun _ hi =>
      Fields.WellFormed.insert hi.wellFormed _ (.int _)
  have hmemory := wellFormed_section hf h.memory fun _ hi => MemorySummary.wellFormed hi _
  have hpressure := wellFormed_section hf h.pressure fun _ hi => PressureSummary.wellFormed hi _
  rw [Option.map_id_fun, id] at hload
  simp only [written, List.forall_mem_append, List.forall_mem_cons, and_assoc]
  exact ⟨.int _, .int _, .str _, hcpu,
    wellFormed_kept hf h.cores fun _ _ hi hrow => hrow ▸ CpuCore.wellFormed hi,
    List.forall_mem_nil _, hload, hmemory, hpressure,
    wellFormed_kept hf h.volumes fun _ _ hi => VolumeSummary.wellFormed hi,
    wellFormed_kept hf h.disks fun _ _ hi => DiskSummary.wellFormed hi,
    wellFormed_kept hf h.interfaces fun _ _ hi hrow => hrow ▸ Interface.wellFormed hi,
    wellFormed_kept hf h.numaMemory fun _ _ hi => NumaNode.wellFormed hi,
    wellFormed_kept hf h.numaCpu fun _ _ hi hrow => hrow ▸ hi.wellFormed,
    wellFormed_kept hf h.caches fun _ _ hi => CacheDomain.wellFormed hi,
    Capacity.wellFormed _, ProcessSummary.wellFormed _,
    wellFormed_rows fun r hr => ProcessRecord.wellFormed hf (h.records r hr), List.forall_mem_nil _⟩

theorem MadeFrom.wellFormed_document (h : MadeFrom f limits b) (hf : f.Storable (depth + 2)) :
    b.document.WellFormed (depth + 2) := by
  rw [document, h.extra]
  exact Fields.wellFormed_overlay (h.wellFormed_written hf) hf _

theorem wellFormed_toJson {text : String} {settings : Settings}
    (h : ofText text settings = .ok b) : Json.WellFormed Json.depthLimit b.toJson := by
  obtain ⟨f, hsource, -, hmade⟩ := madeFrom_of_ofText h
  exact hmade.wellFormed_document (Sample.storable_of_source? hsource)

end Board

end ActivityBoard
