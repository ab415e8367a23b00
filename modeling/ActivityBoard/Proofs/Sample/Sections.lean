import ActivityBoard.Proofs.Metric
import ActivityBoard.Sample.Machine
import ActivityBoard.Sample.Process

namespace ActivityBoard

namespace Fields

variable {entries f out : Fields} {depth : Nat}

def Holds (out entries : Fields) : Prop := ∀ field ∈ entries, out.get? field.1 = some field.2

@[simp] theorem holds_cons {key : String} {v : Json} :
    out.Holds ((key, v) :: entries) ↔ out.get? key = some v ∧ out.Holds entries :=
  List.forall_mem_cons

theorem holds_append {others : Fields} :
    out.Holds (entries ++ others) ↔ out.Holds entries ∧ out.Holds others :=
  List.forall_mem_append

theorem text?_of_get? {key s : String} (h : out.get? key = some (.str s)) :
    out.text? key = some s := by
  rw [text?, h]
  rfl

/-- Nothing is lost of these fields when they are written. -/
def Storable (depth : Nat) (f : Fields) : Prop := Json.Storable (depth + 1) (.obj f)

theorem storable_iff :
    f.Storable depth ↔ f.Ascending ∧ ∀ field ∈ f, Json.Storable depth field.2 := by
  constructor
  · intro h
    cases h with
    | obj hf hfields => exact ⟨hf, hfields⟩
  · rintro ⟨hf, hfields⟩
    exact .obj hf hfields

theorem Storable.ascending (h : f.Storable depth) : f.Ascending := (storable_iff.1 h).1

theorem Storable.overlay (hf : f.Storable depth) (known : List String)
    (hentries : ∀ field ∈ entries, Json.Storable depth field.2) :
    ((ofList entries).insertAll (f.without known)).Storable depth := by
  obtain ⟨hascending, hfields⟩ := storable_iff.1 hf
  refine storable_iff.2 ⟨(ascending_ofList entries).insertAll _, fun field hfield => ?_⟩
  obtain hextra | hentry := mem_insertAll hfield
  · exact hfields field (List.mem_filter.1 hextra).1
  · exact hentries field (mem_of_mem_ofList hentry)

end Fields

/-- A row is stored whole, and what is read of it stands in the relation to the row. -/
structure Restored {α : Type} (depth : Nat) (make : Fields → Option α) (R : α → α → Prop)
    (out : Fields) (a : α) : Prop where
  storable : out.Storable depth
  made : ∃ b, make out = some b ∧ R b a

/-- A row that is written from known entries and the unknown fields of its input is restored, if it
can be told from these. -/
theorem Fields.Storable.restored {α : Type} {known : List String} {entries f : Fields} {depth : Nat}
    {make : Fields → Option α} {R : α → α → Prop} {a : α} (hf : f.Storable depth)
    (hkeys : entries.map Prod.fst = known) (hnodup : known.Nodup)
    (hentries : ∀ field ∈ entries, Json.Storable depth field.2)
    (hmade : ∀ out : Fields, out.Holds entries → out.without known = f.without known →
      ∃ b, make out = some b ∧ R b a) :
    Restored depth make R ((ofList entries).insertAll (f.without known)) a where
  storable := hf.overlay known hentries
  made := by
    have hunknown := hf.ascending.unknown_without known
    have he : (entries.map Prod.fst).Nodup := hkeys ▸ hnodup
    refine hmade _ (fun field hfield => ?_)
      (hunknown.without_insertAll (hkeys ▸ List.Subset.refl _))
    rw [hunknown.get?_insertAll he (hkeys ▸ List.mem_map_of_mem hfield)]
    exact (get?_eq_some_iff_mem he).2 hfield

variable {f out : Fields} {depth : Nat}

namespace CpuTimes

theorem ofFields_of_holds (h : out.Holds (ofFields f).entries) : ofFields out = ofFields f := by
  simp only [entries, Fields.holds_cons] at h
  simp [ofFields, Fields.value, h, Json.count64]

theorem storable_entries : ∀ field ∈ (ofFields f).entries, Json.Storable depth field.2 := by
  simp [entries, ofFields, Json.count64]

end CpuTimes

namespace CpuTotals

theorem restored (hf : f.Storable depth) :
    Restored depth (fun row => some (ofFields row)) Eq (ofFields f).toFields (ofFields f) := by
  rw [toFields]
  refine hf.restored rfl (by decide +kernel) ?_ fun out hholds hextra => ⟨_, rfl, ?_⟩
  · have hcount (key : String) : Json.Storable depth (.int (f.value key).count64) := by
      simp [Json.count64]
    simp only [List.forall_mem_cons]
    exact ⟨hcount "hertz", hcount "nrcpu", CpuTimes.storable_entries⟩
  · simp only [Fields.holds_cons] at hholds
    obtain ⟨hhertz, hcores, htimes⟩ := hholds
    have htimes := CpuTimes.ofFields_of_holds htimes
    simp only [ofFields, Fields.value] at hhertz hcores hextra ⊢
    simp [hhertz, hcores, hextra, htimes, Json.count64]

end CpuTotals

namespace CpuCore

theorem restored (hf : f.Storable depth) :
    Restored depth (fun row => some (ofFields row)) Eq (ofFields f).toFields (ofFields f) := by
  rw [toFields]
  refine hf.restored rfl (by decide +kernel) CpuTimes.storable_entries
    fun out hholds hextra => ⟨_, rfl, ?_⟩
  simp only [ofFields, CpuTimes.ofFields_of_holds hholds, hextra]

end CpuCore

namespace MemoryStats

theorem restored (hf : f.Storable depth) :
    Restored depth (fun row => some (ofFields row)) Eq (ofFields f).toFields (ofFields f) := by
  rw [toFields]
  refine hf.restored rfl (by decide +kernel) ?_ fun out hholds hextra => ⟨_, rfl, ?_⟩
  · simp [ofFields, Json.count64]
  · simp only [ofFields, Fields.holds_cons] at hholds
    simp [ofFields, Fields.value, hholds, hextra, Json.count64]

end MemoryStats

namespace Stall

structure Finite (s : Stall) : Prop where
  over10 : s.over10.isFinite = true
  over60 : s.over60.isFinite = true
  over300 : s.over300.isFinite = true

theorem finite_iff {s : Stall} : s.Finite ↔
    s.over10.isFinite = true ∧ s.over60.isFinite = true ∧ s.over300.isFinite = true :=
  ⟨fun h => ⟨h.over10, h.over60, h.over300⟩, fun h => ⟨h.1, h.2.1, h.2.2⟩⟩

instance : DecidablePred Finite := fun _ => decidable_of_iff' _ finite_iff

variable {name : String}

theorem ofFields_of_holds (hfinite : (ofFields name f).Finite)
    (h : out.Holds ((ofFields name f).entries name)) : ofFields name out = ofFields name f := by
  obtain ⟨h10, h60, h300⟩ := hfinite
  simp only [entries, Fields.holds_cons] at h
  simp only [ofFields, Fields.value] at h h10 h60 h300 ⊢
  simp [h, Json.real_ofFloat h10, Json.real_ofFloat h60, Json.real_ofFloat h300, Json.count64]

theorem storable_entries :
    ∀ field ∈ (ofFields name f).entries name, Json.Storable depth field.2 := by
  simp [entries, ofFields, Json.storable_ofFloat, Json.count64]

end Stall

namespace Pressure

structure Finite (p : Pressure) : Prop where
  cpuSome : p.cpuSome.Finite
  memorySome : p.memorySome.Finite
  memoryFull : p.memoryFull.Finite
  ioSome : p.ioSome.Finite
  ioFull : p.ioFull.Finite

theorem finite_iff {p : Pressure} : p.Finite ↔ p.cpuSome.Finite ∧ p.memorySome.Finite ∧
    p.memoryFull.Finite ∧ p.ioSome.Finite ∧ p.ioFull.Finite :=
  ⟨fun h => ⟨h.cpuSome, h.memorySome, h.memoryFull, h.ioSome, h.ioFull⟩,
    fun h => ⟨h.1, h.2.1, h.2.2.1, h.2.2.2.1, h.2.2.2.2⟩⟩

instance : DecidablePred Finite := fun _ => decidable_of_iff' _ finite_iff

theorem restored (hf : f.Storable depth) (hfinite : (ofFields f).Finite) :
    Restored depth (fun row => some (ofFields row)) Eq (ofFields f).toFields (ofFields f) := by
  rw [toFields]
  refine hf.restored rfl (by decide +kernel) ?_ fun out hholds hextra => ⟨_, rfl, ?_⟩
  · simp only [List.forall_mem_append]
    exact ⟨⟨⟨⟨Stall.storable_entries, Stall.storable_entries⟩, Stall.storable_entries⟩,
      Stall.storable_entries⟩, Stall.storable_entries⟩
  · simp only [Fields.holds_append] at hholds
    obtain ⟨⟨⟨⟨hcpuSome, hmemorySome⟩, hmemoryFull⟩, hioSome⟩, hioFull⟩ := hholds
    simp only [ofFields, hextra, Stall.ofFields_of_holds hfinite.cpuSome hcpuSome,
      Stall.ofFields_of_holds hfinite.memorySome hmemorySome,
      Stall.ofFields_of_holds hfinite.memoryFull hmemoryFull,
      Stall.ofFields_of_holds hfinite.ioSome hioSome,
      Stall.ofFields_of_holds hfinite.ioFull hioFull]

end Pressure

namespace DeviceIo

theorem ofFields_of_holds (h : out.Holds (ofFields f).entries) : ofFields out = ofFields f := by
  simp only [entries, Fields.holds_cons] at h
  simp [ofFields, Fields.value, h, Json.count64]

theorem storable_entries : ∀ field ∈ (ofFields f).entries, Json.Storable depth field.2 := by
  simp [entries, ofFields, Json.count64]

end DeviceIo

namespace LogicalVolume

theorem restored {v : LogicalVolume} (hf : f.Storable depth) (hv : ofFields? f = some v) :
    Restored depth ofFields? Eq v.toFields v := by
  obtain ⟨name, -, rfl⟩ := Option.map_eq_some_iff.1 hv
  refine hf.restored rfl (by decide +kernel) ?_ fun out hholds hextra => ?_
  · exact List.forall_mem_cons.2 ⟨.str name, DeviceIo.storable_entries⟩
  · obtain ⟨hname, hio⟩ := Fields.holds_cons.1 hholds
    refine ⟨_, ?_, rfl⟩
    rw [ofFields?, Fields.text?_of_get? hname, DeviceIo.ofFields_of_holds hio, hextra,
      Option.map_some]

end LogicalVolume

namespace Disk

theorem restored (hf : f.Storable depth) :
    Restored depth (fun row => some (ofFields row)) Eq (ofFields f).toFields (ofFields f) := by
  rw [toFields]
  refine hf.restored rfl (by decide +kernel) DeviceIo.storable_entries
    fun out hholds hextra => ⟨_, rfl, ?_⟩
  rw [ofFields, DeviceIo.ofFields_of_holds hholds, hextra, ofFields]

end Disk

namespace Interface

theorem restored (hf : f.Storable depth) :
    Restored depth (fun row => some (ofFields row)) Eq (ofFields f).toFields (ofFields f) := by
  rw [toFields]
  refine hf.restored rfl (by decide +kernel) ?_ fun out hholds hextra => ⟨_, rfl, ?_⟩
  · simp [ofFields, Json.count64]
  · simp only [ofFields, Fields.holds_cons] at hholds
    simp [ofFields, Fields.value, hholds, hextra, Json.count64]

end Interface

section Metrics

theorem metric?_of_get? {key : String} {m : Metric} (hm : f.metric? key = some m)
    (hfinite : m.Finite) (h : out.get? key = some m.toJson) :
    ∃ n, out.metric? key = some n ∧ n.Equal m := by
  have hkept : ∀ text, m = .malformed text → Metric.ofText text = .malformed text := by
    rintro text rfl
    exact Metric.ofText_of_ofJson? hm
  rw [Fields.metric?, Fields.value, h]
  exact Metric.exists_equal_of_toJson hfinite hkept

def NumaMemory.Equal (a b : NumaMemory) : Prop :=
  a.fragmentation.Equal b.fragmentation ∧ a.extra = b.extra

theorem NumaMemory.restored {n : NumaMemory} (hf : f.Storable depth) (hn : ofFields? f = some n)
    (hfinite : n.fragmentation.Finite) : Restored depth ofFields? Equal n.toFields n := by
  obtain ⟨m, hm, rfl⟩ := Option.map_eq_some_iff.1 hn
  refine hf.restored rfl (by decide) ?_ fun out hholds hextra => ?_
  · simp [Metric.storable_toJson hfinite]
  · obtain ⟨hmetric, -⟩ := Fields.holds_cons.1 hholds
    obtain ⟨again, hagain, hequal⟩ := metric?_of_get? hm hfinite hmetric
    rw [ofFields?, hagain, Option.map_some]
    exact ⟨_, rfl, hequal, hextra⟩

def CacheDomain.Equal (a b : CacheDomain) : Prop :=
  a.occupancy.Equal b.occupancy ∧ a.extra = b.extra

theorem CacheDomain.restored {c : CacheDomain} (hf : f.Storable depth) (hc : ofFields? f = some c)
    (hfinite : c.occupancy.Finite) : Restored depth ofFields? Equal c.toFields c := by
  obtain ⟨m, hm, rfl⟩ := Option.map_eq_some_iff.1 hc
  refine hf.restored rfl (by decide) ?_ fun out hholds hextra => ?_
  · simp [Metric.storable_toJson hfinite]
  · obtain ⟨hmetric, -⟩ := Fields.holds_cons.1 hholds
    obtain ⟨again, hagain, hequal⟩ := metric?_of_get? hm hfinite hmetric
    rw [ofFields?, hagain, Option.map_some]
    exact ⟨_, rfl, hequal, hextra⟩

end Metrics

namespace Identity

theorem restored {g : Identity} (hf : f.Storable depth) (hg : ofFields? f = some g) :
    Restored depth ofFields? Eq g.toFields g := by
  unfold ofFields? at hg
  obtain ⟨name, -, hg⟩ := Option.bind_eq_some_iff.1 hg
  obtain ⟨state, -, hg⟩ := Option.bind_eq_some_iff.1 hg
  obtain ⟨commandLine, -, hg⟩ := Option.bind_eq_some_iff.1 hg
  cases hg
  refine hf.restored rfl (by decide +kernel) ?_ fun out hholds hextra => ⟨_, ?_, rfl⟩
  · simp [Json.count32, Json.count64, Json.int32, Json.Storable.str]
  · simp only [Fields.holds_cons] at hholds
    obtain ⟨hpid, hname, hstate, hgroup, hthreads, hexit, hcommand, hholds⟩ := hholds
    simp [ofFields?, Fields.text?_of_get? hname, Fields.text?_of_get? hstate,
      Fields.text?_of_get? hcommand, Fields.value, hpid, hgroup, hthreads, hexit, hholds, hextra,
      Json.count32, Json.count64, Json.int32]

end Identity

namespace CpuUse

theorem restored (hf : f.Storable depth) :
    Restored depth (fun row => some (ofFields row)) Eq (ofFields f).toFields (ofFields f) := by
  rw [toFields]
  refine hf.restored rfl (by decide +kernel) ?_ fun out hholds hextra => ⟨_, rfl, ?_⟩
  · simp [ofFields, Json.count32, Json.count64, Json.int32, Json.int64]
  · simp only [ofFields, Fields.holds_cons] at hholds
    simp [ofFields, Fields.value, hholds, hextra, Json.count32, Json.count64, Json.int32,
      Json.int64]

end CpuUse

namespace MemoryUse

theorem restored (hf : f.Storable depth) :
    Restored depth (fun row => some (ofFields row)) Eq (ofFields f).toFields (ofFields f) := by
  rw [toFields]
  refine hf.restored rfl (by decide +kernel) ?_ fun out hholds hextra => ⟨_, rfl, ?_⟩
  · simp [ofFields, sizes, Json.count32, Json.int64]
  · simp only [ofFields, sizes, List.map, Fields.holds_cons] at hholds
    simp [ofFields, Fields.value, hholds, hextra, Json.count32, Json.int64]

end MemoryUse

namespace DiskUse

theorem restored (hf : f.Storable depth) :
    Restored depth (fun row => some (ofFields row)) Eq (ofFields f).toFields (ofFields f) := by
  rw [toFields]
  refine hf.restored rfl (by decide +kernel) ?_ fun out hholds hextra => ⟨_, rfl, ?_⟩
  · simp [ofFields, counters, Json.count32, Json.int64]
  · simp only [ofFields, counters, List.map, Fields.holds_cons] at hholds
    simp [ofFields, Fields.value, hholds, hextra, Json.count32, Json.int64]

end DiskUse

end ActivityBoard
