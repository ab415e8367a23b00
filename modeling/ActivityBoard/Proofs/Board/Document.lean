import ActivityBoard.Proofs.Board.Reading

/-!
The document of a board. In each of its objects the unknown fields of the input stand with the
fields that are written, over them or under them.
-/
namespace ActivityBoard

namespace Sample

theorem keys_optional (key : String) (fields : Option Fields) :
    ((optional key fields).map Prod.fst).Sublist [key] := by
  cases fields with
  | none => exact List.nil_sublist _
  | some fields => exact .refl _

end Sample

namespace Board

variable {α : Type} {f : Fields} {limits : Limits} {b : Board} {key : String} {value : Json}

def written (b : Board) : List (String × Json) :=
  [("timestamp", .int b.timestamp), ("elapsed", .int b.elapsed), ("date", .str b.date),
    ("CPU", .obj b.cpu.toFields), Sample.rows "cpu" CpuCore.toFields b.cores] ++
  Sample.optional "CPL" b.load ++
  Sample.optional "MEM" (b.memory.map MemorySummary.toFields) ++
  Sample.optional "PSI" (b.pressure.map PressureSummary.toFields) ++
  [Sample.rows "LVM" VolumeSummary.toFields b.volumes,
    Sample.rows "DSK" DiskSummary.toFields b.disks,
    Sample.rows "NET" Interface.toFields b.interfaces,
    Sample.rows "NUM" NumaNode.toFields b.numaMemory,
    Sample.rows "NUC" id b.numaCpu,
    Sample.rows "LLC" CacheDomain.toFields b.caches,
    ("EXTRA", .obj b.capacity.toFields),
    ("HPRC", .obj b.processes.summary.toFields),
    Sample.rows "PRSUMMARY" ProcessRecord.toFields b.processes.records]

def document (b : Board) : Fields := (Fields.ofList b.written).insertAll b.extra

theorem toJson_eq (b : Board) : b.toJson = .obj b.document := rfl

theorem mem_written_cpu (b : Board) : ("CPU", .obj b.cpu.toFields) ∈ b.written := by
  simp [written]

theorem mem_written_load {fields : Fields} (h : b.load = some fields) :
    ("CPL", .obj fields) ∈ b.written := by
  simp [written, Sample.optional, h]

theorem mem_written_memory {m : MemorySummary} (h : b.memory = some m) :
    ("MEM", .obj m.toFields) ∈ b.written := by
  simp [written, Sample.optional, h]

theorem mem_written_pressure {p : PressureSummary} (h : b.pressure = some p) :
    ("PSI", .obj p.toFields) ∈ b.written := by
  simp [written, Sample.optional, h]

def keys : List String :=
  ["timestamp", "elapsed", "date", "CPU", "cpu", "CPL", "MEM", "PSI", "LVM", "DSK", "NET", "NUM",
    "NUC", "LLC", "EXTRA", "HPRC", "PRSUMMARY"]

theorem keys_written (b : Board) : (b.written.map Prod.fst).Sublist keys := by
  rw [written, List.map_append, List.map_append, List.map_append, List.map_append]
  exact ((((List.Sublist.refl _).append (Sample.keys_optional "CPL" _)).append
    (Sample.keys_optional "MEM" _)).append (Sample.keys_optional "PSI" _)).append (.refl _)

theorem nodup_written (b : Board) : (b.written.map Prod.fst).Nodup := by
  have hkeys : keys.Nodup := by decide
  exact hkeys.sublist b.keys_written

theorem MadeFrom.get?_document (h : MadeFrom f limits b) (hf : f.Canonical)
    (hm : (key, value) ∈ b.written) :
    b.document.get? key = (f.unknown? Sample.keys key).or (some value) := by
  rw [document, h.extra, Fields.get?_overlay hf.ascending b.nodup_written,
    (Fields.get?_eq_some_iff_mem b.nodup_written).2 hm]

theorem MadeFrom.get?_section (h : MadeFrom f limits b) (hf : f.Canonical)
    (hk : key ∈ Sample.keys) (hm : (key, value) ∈ b.written) :
    b.document.get? key = some value := by
  rw [h.get?_document hf hm, Fields.unknown?_of_mem hk, Option.none_or]

theorem MadeFrom.get?_top (h : MadeFrom f limits b) (hf : f.Canonical)
    (hk : key ∉ Sample.keys) (hm : (key, value) ∈ b.written) :
    b.document.get? key = (f.get? key).or (some value) := by
  rw [h.get?_document hf hm, Fields.unknown?_of_not_mem hk]

/-- The rows under a key are read from rows of the input, as many as the limit allows, and something
holds of each and of the one that it is read from. -/
def ShowsRows (f document : Fields) (key : String) (limit : Nat) (reads : Fields → α → Prop)
    (toFields : α → Fields) (holds : Fields → α → Prop) (rows : List α) : Prop :=
  document.get? key = some (.arr (rows.map fun row => .obj (toFields row))) ∧
    Kept limit (fun input row => reads input row ∧ holds input row) (f.rowsAt key) rows

theorem MadeFrom.showsRows {limit : Nat} {reads holds : Fields → α → Prop}
    {toFields : α → Fields} {rows : List α} (h : MadeFrom f limits b) (hf : f.Canonical)
    (hk : key ∈ Sample.keys) (hm : Sample.rows key toFields rows ∈ b.written)
    (hrows : Kept limit reads (f.rowsAt key) rows)
    (hholds : ∀ input row, input.Ascending → reads input row → holds input row) :
    ShowsRows f b.document key limit reads toFields holds rows := by
  refine ⟨h.get?_section hf hk hm, hrows.imp fun input hi row hread => ⟨hread, ?_⟩⟩
  exact hholds input row (hf.rowsAt hi).ascending hread

end Board

end ActivityBoard
