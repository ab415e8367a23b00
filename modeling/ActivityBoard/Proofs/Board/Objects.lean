import ActivityBoard.Proofs.Board.Reading

/-!
The objects in the document of a board. In some of them the derived fields are written last, in the
others the unknown fields of the input.
-/
namespace ActivityBoard

variable {input : Fields} {key : String} {value : Json}

namespace CpuSummary

def keys : List String := "hertz" :: "nrcpu" :: CpuTimes.keys ++ ["cpubusy"]

theorem keeps (hi : input.Ascending) (capacity : Capacity) :
    input.Keeps keys (ofTotals (CpuTotals.ofFields input) capacity).toFields := by
  have htotals : input.Keeps keys (CpuTotals.ofFields input).toFields :=
    Fields.keeps_overlay hi (List.subset_append_left ..) (List.subset_append_left ..)
  exact htotals.insert (by decide) _

theorem get?_busy (c : CpuSummary) : c.toFields.get? "cpubusy" = some c.busy.toJson := by
  rw [toFields, Fields.get?_insert, if_pos rfl]

end CpuSummary

theorem Fields.keeps_insert (input : Fields) (key : String) (value : Json) :
    input.Keeps [key] (input.insert key value) :=
  (keeps_refl [key] input).insert List.mem_cons_self value

theorem CpuCore.keeps (hi : input.Ascending) :
    input.Keeps CpuTimes.keys (ofFields input).toFields :=
  Fields.keeps_overlay hi (List.Subset.refl _) (List.Subset.refl _)

namespace MemorySummary

def keys : List String := ["physmem", "numanode"]

theorem keeps (hi : input.Ascending) (nodes : Nat) :
    input.Keeps keys (toFields ⟨MemoryStats.ofFields input, nodes⟩) := by
  have hstats : input.Keeps keys (MemoryStats.ofFields input).toFields :=
    Fields.keeps_overlay hi (List.subset_append_left ["physmem"] _)
      (List.subset_append_left ["physmem"] _)
  exact hstats.insert (by decide) _

theorem get?_nodes (m : MemorySummary) : m.toFields.get? "numanode" = some (.int m.nodes) := by
  rw [toFields, Fields.get?_insert, if_pos rfl]

end MemorySummary

namespace PressureSummary

def derived (p : PressureSummary) : List (String × Json) :=
  let ratioOf (s : Stall) : Json := Json.ofMetric (ratio s.total p.elapsed)
  [("cpusome", ratioOf p.pressure.cpuSome), ("iosome", ratioOf p.pressure.ioSome),
    ("iofull", ratioOf p.pressure.ioFull), ("memsome", ratioOf p.pressure.memorySome),
    ("memfull", ratioOf p.pressure.memoryFull), ("cs", .str (averages p.pressure.cpuSome)),
    ("ms", .str (averages p.pressure.memorySome)), ("mf", .str (averages p.pressure.memoryFull)),
    ("is", .str (averages p.pressure.ioSome)), ("if", .str (averages p.pressure.ioFull))]

def derivedKeys : List String :=
  ["cpusome", "iosome", "iofull", "memsome", "memfull", "cs", "ms", "mf", "is", "if"]

def keys : List String := Pressure.keys ++ derivedKeys

theorem toFields_eq (p : PressureSummary) :
    p.toFields = p.pressure.toFields.insertAll p.derived := rfl

theorem keeps (hi : input.Ascending) (elapsed : Int) :
    input.Keeps keys (toFields ⟨Pressure.ofFields input, elapsed⟩) := by
  have hpressure : input.Keeps keys (Pressure.ofFields input).toFields :=
    Fields.keeps_overlay hi (List.subset_append_left ..) (List.subset_append_left ..)
  rw [toFields_eq]
  exact hpressure.insertAll (List.subset_append_right ..)

theorem get?_derived (p : PressureSummary) (hm : (key, value) ∈ p.derived) :
    p.toFields.get? key = some value := by
  have hnodup : (p.derived.map Prod.fst).Nodup := by
    change derivedKeys.Nodup
    decide
  rw [toFields_eq, Fields.get?_insertAll _ hnodup, (Fields.get?_eq_some_iff_mem hnodup).2 hm,
    Option.some_or]

end PressureSummary

namespace DeviceRates

def keys (busyKey : String) : List String := ["avio", busyKey, "MBr/s", "MBw/s"]

theorem mem_keys {rates : DeviceRates} {busyKey : String}
    (h : (key, value) ∈ rates.entries busyKey) : key ∈ keys busyKey :=
  List.mem_map_of_mem (f := Prod.fst) h

end DeviceRates

namespace VolumeSummary

def keys : List String := "lvmname" :: DeviceIo.keys ++ DeviceRates.keys "lvmbusy"

variable {b : Board} {v : VolumeSummary}

theorem keeps (hi : input.Ascending) (h : b.ReadsVolume input v) :
    input.Keeps keys v.toFields := by
  obtain ⟨volume, hread, rfl⟩ := h
  obtain ⟨name, _, rfl⟩ := Option.map_eq_some_iff.1 hread
  exact Fields.keeps_overlay hi (List.subset_append_left ..) (List.Subset.refl _)

theorem get?_rates (hi : input.Ascending) (h : b.ReadsVolume input v)
    (hm : (key, value) ∈ v.rates.entries "lvmbusy") :
    v.toFields.get? key = (input.get? key).or (some value) := by
  obtain ⟨volume, hread, rfl⟩ := h
  obtain ⟨name, _, rfl⟩ := Option.map_eq_some_iff.1 hread
  have hnodup : keys.Nodup := by decide
  have hunknown : ∀ key ∈ DeviceRates.keys "lvmbusy", key ∉ "lvmname" :: DeviceIo.keys := by decide
  exact Fields.get?_overlay_of_mem hi hnodup (List.mem_append_right _ hm)
    (hunknown key (DeviceRates.mem_keys hm))

theorem get?_name (hi : input.Ascending) (h : b.ReadsVolume input v) :
    v.toFields.get? "lvmname" = some (.str v.volume.name) := by
  obtain ⟨volume, hread, rfl⟩ := h
  obtain ⟨name, _, rfl⟩ := Option.map_eq_some_iff.1 hread
  have hnodup : keys.Nodup := by decide
  exact Fields.get?_overlay_known hi hnodup List.mem_cons_self List.mem_cons_self

end VolumeSummary

namespace DiskSummary

def keys : List String := DeviceIo.keys ++ DeviceRates.keys "diskbusy"

variable {b : Board} {d : DiskSummary}

theorem keeps (hi : input.Ascending) (h : b.ReadsDisk input d) : input.Keeps keys d.toFields := by
  obtain rfl := h
  exact Fields.keeps_overlay hi (List.subset_append_left ..) (List.Subset.refl _)

theorem get?_rates (hi : input.Ascending) (h : b.ReadsDisk input d)
    (hm : (key, value) ∈ d.rates.entries "diskbusy") :
    d.toFields.get? key = (input.get? key).or (some value) := by
  obtain rfl := h
  have hnodup : keys.Nodup := by decide
  have hunknown : ∀ key ∈ DeviceRates.keys "diskbusy", key ∉ DeviceIo.keys := by decide
  exact Fields.get?_overlay_of_mem hi hnodup (List.mem_append_right _ hm)
    (hunknown key (DeviceRates.mem_keys hm))

end DiskSummary

theorem Interface.keeps (hi : input.Ascending) :
    input.Keeps ["rpack", "spack"] (ofFields input).toFields :=
  Fields.keeps_overlay hi (List.Subset.refl _) (List.Subset.refl _)

namespace NumaNode

def keys : List String := ["numanodeId", "frag"]

variable {n : NumaNode}

theorem keeps (hi : input.Ascending) (h : Board.ReadsNode input n) :
    input.Keeps keys n.toFields := by
  obtain ⟨node, i, hread, rfl⟩ := h
  obtain ⟨fragmentation, _, rfl⟩ := Option.map_eq_some_iff.1 hread
  exact Fields.keeps_overlay hi (by decide) (List.Subset.refl _)

theorem get?_index (hi : input.Ascending) (h : Board.ReadsNode input n) :
    n.toFields.get? "numanodeId" = (input.get? "numanodeId").or (some (.int n.index)) := by
  obtain ⟨node, i, hread, rfl⟩ := h
  obtain ⟨fragmentation, _, rfl⟩ := Option.map_eq_some_iff.1 hread
  have hnodup : keys.Nodup := by decide
  exact Fields.get?_overlay_of_mem hi hnodup List.mem_cons_self (by decide)

theorem get?_fragmentation (hi : input.Ascending) (h : Board.ReadsNode input n) :
    n.toFields.get? "frag" = some n.fragmentation.toJson := by
  obtain ⟨node, i, hread, rfl⟩ := h
  obtain ⟨fragmentation, _, rfl⟩ := Option.map_eq_some_iff.1 hread
  have hnodup : keys.Nodup := by decide
  exact Fields.get?_overlay_known hi hnodup (List.mem_cons_of_mem _ List.mem_cons_self)
    List.mem_cons_self

end NumaNode

theorem CacheDomain.keeps {row : CacheDomain} (hi : input.Ascending)
    (h : ofFields? input = some row) : input.Keeps ["occupancy"] row.toFields := by
  obtain ⟨occupancy, _, rfl⟩ := Option.map_eq_some_iff.1 h
  exact Fields.keeps_overlay hi (List.Subset.refl _) (List.Subset.refl _)

theorem CacheDomain.get?_occupancy {row : CacheDomain} (hi : input.Ascending)
    (h : ofFields? input = some row) :
    row.toFields.get? "occupancy" = some row.occupancy.toJson := by
  obtain ⟨occupancy, _, rfl⟩ := Option.map_eq_some_iff.1 h
  exact Fields.get?_overlay_known hi (List.nodup_singleton _) List.mem_cons_self
    List.mem_cons_self

end ActivityBoard
