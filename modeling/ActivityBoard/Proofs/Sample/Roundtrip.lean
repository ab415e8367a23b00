import ActivityBoard.Proofs.Sample.Reading
import ActivityBoard.Proofs.Sample.Sections

namespace ActivityBoard

theorem Json.Storable.succ {depth : Nat} {v : Json} (h : Json.Storable depth v) :
    Json.Storable (depth + 1) v := by
  induction h with
  | null => exact .null
  | bool b => exact .bool b
  | int hlow hhigh => exact .int hlow hhigh
  | float hx => exact .float hx
  | str s => exact .str s
  | arr _ ih => exact .arr ih
  | obj hascending _ ih => exact .obj hascending ih

namespace Fields

variable {α : Type} {f out inner row : Fields} {depth : Nat} {key : String}

theorem Storable.value (h : f.Storable depth) (key : String) :
    Json.Storable depth (f.value key) := by
  obtain ⟨hf, hfields⟩ := storable_iff.1 h
  obtain hnull | hmem := value_eq_null_or_mem hf key
  · rw [hnull]
    exact .null
  · exact hfields _ hmem

theorem Storable.objectAt? (h : f.Storable (depth + 1)) (hi : f.objectAt? key = some inner) :
    inner.Storable depth := by
  have hv := h.value key
  rwa [value_of_objectAt? hi] at hv

theorem storable_nil (depth : Nat) : Storable depth [] :=
  storable_iff.2 ⟨List.Pairwise.nil, fun _ h => absurd h List.not_mem_nil⟩

theorem Storable.objectAt?_getD (h : f.Storable (depth + 1)) (key : String) :
    ((f.objectAt? key).getD []).Storable depth := by
  cases hi : f.objectAt? key with
  | none => exact storable_nil depth
  | some inner => exact h.objectAt? hi

theorem Storable.rowsAt (h : f.Storable (depth + 2)) (hr : row ∈ f.rowsAt key) :
    row.Storable depth := by
  obtain ⟨items, hitems, hrow⟩ := value_of_mem_rowsAt hr
  have hv := h.value key
  rw [hitems] at hv
  cases hv with
  | arr hitems => exact hitems _ hrow

theorem int64_eq {n : Int} (hn : n = (f.value key).int64) (hout : out.get? key = some (.int n)) :
    (out.value key).int64 = n := by
  rw [Fields.value, hout, Option.getD_some, hn]
  exact Json.counter_int_counter Json.bounds_int64 _

theorem required?_eq {make : Fields → α} (hout : out.get? key = some (.obj inner)) :
    out.required? make key = some (make inner) := by
  rw [required?, hout]
  rfl

theorem section?_eq {make : Fields → α} (toFields : α → Fields) {o : Option α}
    (hout : out.get? key = (o.map toFields).map Json.obj) (h : ∀ a ∈ o, make (toFields a) = a) :
    out.section? make key = some o := by
  rw [section?, Fields.value, hout]
  cases o with
  | none => rfl
  | some a => exact congrArg (fun b => some (some b)) (h a rfl)

end Fields

theorem Restored.make_eq {α : Type} {depth : Nat} {make : Fields → α} {out : Fields} {a : α}
    (h : Restored depth (fun row => some (make row)) Eq out a) : make out = a := by
  obtain ⟨b, hb, rfl⟩ := h.made
  exact Option.some.inj hb

section Lists

variable {α : Type} {f out : Fields} {depth : Nat} {key : String} {make : Fields → Option α}
  {toFields : α → Fields} {R : α → α → Prop} {items : List α}

theorem exists_rows? (hout : out.get? key = some (Sample.rows key toFields items).2)
    (h : ∀ a ∈ items, Restored depth make R (toFields a) a) :
    ∃ again, out.rows? make key = some again ∧ List.Forall₂ R again items := by
  unfold Fields.rows?
  rw [hout]
  change ∃ again, ((items.map fun item => Json.obj (toFields item)).mapM
    fun item => item.fields?.bind make) = some again ∧ _
  clear hout
  induction items with
  | nil => exact ⟨[], rfl, .nil⟩
  | cons a items ih =>
    obtain ⟨b, hb, hR⟩ := (h a List.mem_cons_self).made
    obtain ⟨again, hagain, hrest⟩ := ih fun c hc => h c (List.mem_cons_of_mem _ hc)
    refine ⟨b :: again, ?_, .cons hR hrest⟩
    rw [List.map_cons, List.mapM_cons, hagain]
    change (make (toFields a) >>= _) = _
    rw [hb]
    rfl

theorem rows?_eq (hout : out.get? key = some (Sample.rows key toFields items).2)
    (h : ∀ a ∈ items, Restored depth make Eq (toFields a) a) :
    out.rows? make key = some items := by
  obtain ⟨again, hagain, hequal⟩ := exists_rows? hout h
  rw [List.forall₂_eq_eq_eq] at hequal
  rw [hagain, hequal]

theorem storable_rows (h : ∀ a ∈ items, Restored depth make R (toFields a) a) :
    Json.Storable (depth + 2) (Sample.rows key toFields items).2 := by
  refine .arr fun v hv => ?_
  obtain ⟨a, ha, rfl⟩ := List.mem_map.1 hv
  exact (h a ha).storable

theorem restored_of_map {ofRow : Fields → α} (hf : f.Storable (depth + 2))
    (h : ∀ row : Fields, row.Storable depth →
      Restored depth make R (toFields (ofRow row)) (ofRow row))
    (hitems : items = (f.rowsAt key).map ofRow) :
    ∀ a ∈ items, Restored depth make R (toFields a) a := by
  intro a ha
  obtain ⟨row, hrow, rfl⟩ := List.mem_map.1 (hitems ▸ ha)
  exact h row (hf.rowsAt hrow)

theorem exists_of_forall₂_right {made : Fields → α → Prop} {inputs : List Fields}
    (h : List.Forall₂ made inputs items) {a : α} (ha : a ∈ items) :
    ∃ input ∈ inputs, made input a := by
  induction h with
  | nil => cases ha
  | @cons input b inputs items hb _ ih =>
    obtain rfl | ha := List.mem_cons.1 ha
    · exact ⟨input, List.mem_cons_self, hb⟩
    · obtain ⟨found, hfound, hmake⟩ := ih ha
      exact ⟨found, List.mem_cons_of_mem _ hfound, hmake⟩

theorem restored_of_forall₂ (hf : f.Storable (depth + 2))
    (h : ∀ row a, row.Storable depth → make row = some a → a ∈ items →
      Restored depth make R (toFields a) a)
    (hitems : List.Forall₂ (fun input a => make input = some a) (f.rowsAt key) items) :
    ∀ a ∈ items, Restored depth make R (toFields a) a := by
  intro a ha
  obtain ⟨row, hrow, hmake⟩ := exists_of_forall₂_right hitems ha
  exact h row a (hf.rowsAt hrow) hmake ha

end Lists

namespace Sample

/-- The averages of the pressure and the metrics that are numbers are finite. -/
structure Finite (s : Sample) : Prop where
  pressure : ∀ p ∈ s.pressure, p.Finite
  fragmentation : ∀ n ∈ s.numaMemory, n.fragmentation.Finite
  occupancy : ∀ c ∈ s.caches, c.occupancy.Finite

theorem finite_iff {s : Sample} : s.Finite ↔ (∀ p ∈ s.pressure, p.Finite) ∧
    (∀ n ∈ s.numaMemory, n.fragmentation.Finite) ∧ ∀ c ∈ s.caches, c.occupancy.Finite :=
  ⟨fun h => ⟨h.pressure, h.fragmentation, h.occupancy⟩, fun h => ⟨h.1, h.2.1, h.2.2⟩⟩

instance : DecidablePred Finite := fun _ => decidable_of_iff' _ finite_iff

/-- Two samples are equal as their metrics are; all else is the same. -/
structure Equal (s t : Sample) : Prop where
  numaMemory : List.Forall₂ NumaMemory.Equal s.numaMemory t.numaMemory
  caches : List.Forall₂ CacheDomain.Equal s.caches t.caches
  rest : s = { t with numaMemory := s.numaMemory, caches := s.caches }

def entries (s : Sample) : Fields :=
  [("timestamp", .int s.timestamp), ("elapsed", .int s.elapsed), ("CPU", .obj s.cpu.toFields),
    rows "cpu" CpuCore.toFields s.cores] ++
  optional "CPL" s.load ++
  optional "MEM" (s.memory.map MemoryStats.toFields) ++
  optional "PSI" (s.pressure.map Pressure.toFields) ++
  [rows "LVM" LogicalVolume.toFields s.volumes, rows "DSK" Disk.toFields s.disks,
    rows "NET" Interface.toFields s.interfaces, rows "NUM" NumaMemory.toFields s.numaMemory,
    rows "NUC" id s.numaCpu, rows "LLC" CacheDomain.toFields s.caches,
    rows "PRG" Identity.toFields s.identities, rows "PRC" CpuUse.toFields s.cpuUse,
    rows "PRM" MemoryUse.toFields s.memoryUse, rows "PRD" DiskUse.toFields s.diskUse]

theorem toJson_eq (s : Sample) :
    s.toJson = .obj ((Fields.ofList s.entries).insertAll s.extra) := rfl

theorem optional_sublist (key : String) (o : Option Fields) :
    ((optional key o).map Prod.fst).Sublist [key] := by
  cases o with
  | none => exact List.nil_sublist _
  | some inner => exact List.Sublist.refl _

theorem entries_sublist (s : Sample) : (s.entries.map Prod.fst).Sublist keys := by
  -- Only the keys of optional sections can be absent.
  simp only [entries, List.map_append]
  exact ((((List.Sublist.refl _).append (optional_sublist ..)).append (optional_sublist ..)).append
    (optional_sublist ..)).append (List.Sublist.refl _)

theorem get?_optional (key k : String) (o : Option Fields) :
    Fields.get? (optional key o) k = if k = key then o.map Json.obj else none := by
  cases o with
  | none => simp [optional, Fields.get?]
  | some inner => exact Fields.get?_cons ..

theorem get?_nil (key : String) : Fields.get? [] key = none := rfl

theorem get?_append (a b : Fields) (key : String) :
    Fields.get? (a ++ b) key = (a.get? key).or (b.get? key) :=
  List.lookup_append

structure Writes (s : Sample) (out : Fields) : Prop where
  timestamp : out.get? "timestamp" = some (.int s.timestamp)
  elapsed : out.get? "elapsed" = some (.int s.elapsed)
  cpu : out.get? "CPU" = some (.obj s.cpu.toFields)
  cores : out.get? "cpu" = some (rows "cpu" CpuCore.toFields s.cores).2
  load : out.get? "CPL" = s.load.map Json.obj
  memory : out.get? "MEM" = (s.memory.map MemoryStats.toFields).map Json.obj
  pressure : out.get? "PSI" = (s.pressure.map Pressure.toFields).map Json.obj
  volumes : out.get? "LVM" = some (rows "LVM" LogicalVolume.toFields s.volumes).2
  disks : out.get? "DSK" = some (rows "DSK" Disk.toFields s.disks).2
  interfaces : out.get? "NET" = some (rows "NET" Interface.toFields s.interfaces).2
  numaMemory : out.get? "NUM" = some (rows "NUM" NumaMemory.toFields s.numaMemory).2
  numaCpu : out.get? "NUC" = some (rows "NUC" id s.numaCpu).2
  caches : out.get? "LLC" = some (rows "LLC" CacheDomain.toFields s.caches).2
  identities : out.get? "PRG" = some (rows "PRG" Identity.toFields s.identities).2
  cpuUse : out.get? "PRC" = some (rows "PRC" CpuUse.toFields s.cpuUse).2
  memoryUse : out.get? "PRM" = some (rows "PRM" MemoryUse.toFields s.memoryUse).2
  diskUse : out.get? "PRD" = some (rows "PRD" DiskUse.toFields s.diskUse).2
  extra : out.without keys = s.extra

theorem writes_toJson {s : Sample} (h : Fields.Unknown keys s.extra) :
    s.Writes ((Fields.ofList s.entries).insertAll s.extra) := by
  have hnodup : (s.entries.map Prod.fst).Nodup := s.entries_sublist.nodup (by decide +kernel)
  have hget : ∀ key ∈ keys, ((Fields.ofList s.entries).insertAll s.extra).get? key =
      s.entries.get? key := fun key hkey => h.get?_insertAll hnodup hkey
  have hextra := h.without_insertAll s.entries_sublist.subset
  generalize (Fields.ofList s.entries).insertAll s.extra = out at *
  constructor
  case extra => exact hextra
  all_goals
    rw [hget _ (by decide)]
    simp [entries, get?_append, get?_optional, rows, Fields.get?_cons, get?_nil]

structure Restores (depth : Nat) (s : Sample) : Prop where
  cpu : Restored (depth + 1) (fun row => some (CpuTotals.ofFields row)) Eq s.cpu.toFields s.cpu
  cores : ∀ c ∈ s.cores,
    Restored depth (fun row => some (CpuCore.ofFields row)) Eq c.toFields c
  load : ∀ inner ∈ s.load, inner.Storable (depth + 1)
  memory : ∀ m ∈ s.memory,
    Restored (depth + 1) (fun row => some (MemoryStats.ofFields row)) Eq m.toFields m
  pressure : ∀ p ∈ s.pressure,
    Restored (depth + 1) (fun row => some (Pressure.ofFields row)) Eq p.toFields p
  volumes : ∀ v ∈ s.volumes, Restored depth LogicalVolume.ofFields? Eq v.toFields v
  disks : ∀ d ∈ s.disks, Restored depth (fun row => some (Disk.ofFields row)) Eq d.toFields d
  interfaces : ∀ i ∈ s.interfaces,
    Restored depth (fun row => some (Interface.ofFields row)) Eq i.toFields i
  numaMemory : ∀ n ∈ s.numaMemory,
    Restored depth NumaMemory.ofFields? NumaMemory.Equal n.toFields n
  numaCpu : ∀ row ∈ s.numaCpu, Restored depth some Eq (id row) row
  caches : ∀ c ∈ s.caches, Restored depth CacheDomain.ofFields? CacheDomain.Equal c.toFields c
  identities : ∀ g ∈ s.identities, Restored depth Identity.ofFields? Eq g.toFields g
  cpuUse : ∀ c ∈ s.cpuUse, Restored depth (fun row => some (CpuUse.ofFields row)) Eq c.toFields c
  memoryUse : ∀ m ∈ s.memoryUse,
    Restored depth (fun row => some (MemoryUse.ofFields row)) Eq m.toFields m
  diskUse : ∀ d ∈ s.diskUse,
    Restored depth (fun row => some (DiskUse.ofFields row)) Eq d.toFields d

theorem restores_of_readFrom {f : Fields} {s : Sample} {depth : Nat} (hf : f.Storable (depth + 2))
    (h : ReadFrom f s) (hfinite : s.Finite) : Restores depth s where
  cpu := by
    rw [h.cpu]
    exact CpuTotals.restored (hf.objectAt?_getD "CPU")
  cores := restored_of_map hf (fun _ => CpuCore.restored) h.cores
  load inner hinner := hf.objectAt? (h.load ▸ hinner)
  memory m hm := by
    obtain ⟨inner, hinner, rfl⟩ := Option.map_eq_some_iff.1 (h.memory ▸ hm)
    exact MemoryStats.restored (hf.objectAt? hinner)
  pressure p hp := by
    have hp' := hfinite.pressure p hp
    obtain ⟨inner, hinner, rfl⟩ := Option.map_eq_some_iff.1 (h.pressure ▸ hp)
    exact Pressure.restored (hf.objectAt? hinner) hp'
  volumes := restored_of_forall₂ hf (fun _ _ hrow hv _ => LogicalVolume.restored hrow hv) h.volumes
  disks := restored_of_map hf (fun _ => Disk.restored) h.disks
  interfaces := restored_of_map hf (fun _ => Interface.restored) h.interfaces
  numaMemory := restored_of_forall₂ hf
    (fun _ n hrow hn hmem => NumaMemory.restored hrow hn (hfinite.fragmentation n hmem))
    h.numaMemory
  numaCpu row hrow := ⟨hf.rowsAt (h.numaCpu ▸ hrow), row, rfl, rfl⟩
  caches := restored_of_forall₂ hf
    (fun _ c hrow hc hmem => CacheDomain.restored hrow hc (hfinite.occupancy c hmem)) h.caches
  identities := restored_of_forall₂ hf (fun _ _ hrow hg _ => Identity.restored hrow hg) h.identities
  cpuUse := restored_of_map hf (fun _ => CpuUse.restored) h.cpuUse
  memoryUse := restored_of_map hf (fun _ => MemoryUse.restored) h.memoryUse
  diskUse := restored_of_map hf (fun _ => DiskUse.restored) h.diskUse

theorem storable_optional {depth : Nat} {key : String} {o : Option Fields}
    (h : ∀ inner ∈ o, inner.Storable depth) :
    ∀ field ∈ optional key o, Json.Storable (depth + 1) field.2 := by
  intro field hfield
  cases o with
  | none => cases hfield
  | some inner =>
    obtain rfl := List.mem_singleton.1 hfield
    exact h inner rfl

theorem storable_entries {f : Fields} {s : Sample} {depth : Nat} (hread : ReadFrom f s)
    (h : Restores depth s) : ∀ field ∈ s.entries, Json.Storable (depth + 2) field.2 := by
  have hmemory : ∀ inner ∈ s.memory.map MemoryStats.toFields, inner.Storable (depth + 1) := by
    intro inner hinner
    obtain ⟨m, hm, rfl⟩ := Option.map_eq_some_iff.1 hinner
    exact (h.memory m hm).storable
  have hpressure : ∀ inner ∈ s.pressure.map Pressure.toFields, inner.Storable (depth + 1) := by
    intro inner hinner
    obtain ⟨p, hp, rfl⟩ := Option.map_eq_some_iff.1 hinner
    exact (h.pressure p hp).storable
  have htimestamp : Json.Storable (depth + 2) (.int s.timestamp) :=
    hread.timestamp ▸ Json.storable_counter Json.bounds_int64 _
  have helapsed : Json.Storable (depth + 2) (.int s.elapsed) :=
    hread.elapsed ▸ Json.storable_counter Json.bounds_int64 _
  simp only [entries, List.forall_mem_append, List.forall_mem_cons, and_assoc]
  exact ⟨htimestamp, helapsed, h.cpu.storable, storable_rows h.cores, List.forall_mem_nil _,
    storable_optional h.load, storable_optional hmemory, storable_optional hpressure,
    storable_rows h.volumes, storable_rows h.disks, storable_rows h.interfaces,
    storable_rows h.numaMemory, storable_rows h.numaCpu, storable_rows h.caches,
    storable_rows h.identities, storable_rows h.cpuUse, storable_rows h.memoryUse,
    storable_rows h.diskUse, List.forall_mem_nil _⟩

theorem exists_equal_of_writes {f out : Fields} {s : Sample} {depth : Nat}
    (hread : ReadFrom f s) (h : Restores depth s) (hw : s.Writes out) :
    ∃ t, ofFields? out = some t ∧ t.Equal s := by
  have hcpu : out.required? CpuTotals.ofFields "CPU" = some s.cpu := by
    rw [Fields.required?_eq hw.cpu, h.cpu.make_eq]
  have hload : out.section? id "CPL" = some s.load :=
    Fields.section?_eq id (by rw [hw.load, Option.map_id_fun, id]) fun _ _ => rfl
  have hmemory : out.section? MemoryStats.ofFields "MEM" = some s.memory :=
    Fields.section?_eq _ hw.memory fun m hm => (h.memory m hm).make_eq
  have hpressure : out.section? Pressure.ofFields "PSI" = some s.pressure :=
    Fields.section?_eq _ hw.pressure fun p hp => (h.pressure p hp).make_eq
  obtain ⟨numaMemory, hnumaMemory, hnumaEqual⟩ := exists_rows? hw.numaMemory h.numaMemory
  obtain ⟨caches, hcaches, hcachesEqual⟩ := exists_rows? hw.caches h.caches
  refine ⟨{ s with numaMemory := numaMemory, caches := caches }, ?_, hnumaEqual, hcachesEqual, rfl⟩
  simp only [ofFields?, hcpu, hload, hmemory, hpressure, hnumaMemory, hcaches,
    rows?_eq hw.cores h.cores, rows?_eq hw.volumes h.volumes, rows?_eq hw.disks h.disks,
    rows?_eq hw.interfaces h.interfaces, rows?_eq hw.numaCpu h.numaCpu,
    rows?_eq hw.identities h.identities, rows?_eq hw.cpuUse h.cpuUse,
    rows?_eq hw.memoryUse h.memoryUse, rows?_eq hw.diskUse h.diskUse,
    Fields.int64_eq hread.timestamp hw.timestamp, Fields.int64_eq hread.elapsed hw.elapsed, hw.extra,
    Option.bind_eq_bind, Option.bind_some]
  rfl

theorem storable_of_object? {v : Json} {f : Fields} {depth : Nat}
    (hv : Json.Storable (depth + 1) v) (h : object? v = some f) : f.Storable depth := by
  unfold object? at h
  split at h
  · cases h
    exact hv
  · cases h
    cases hv with
    | arr hitems => exact (hitems _ (List.mem_singleton_self _)).succ
  · cases h

theorem storable_of_source? {text : String} {f : Fields} (h : source? text = some f) :
    f.Storable 126 := by
  obtain ⟨v, hv, hf⟩ := Option.bind_eq_some_iff.1 h
  exact storable_of_object? (Json.storable_of_ofText? hv) hf

theorem storable_toJson {f : Fields} {s : Sample} (hf : f.Storable 126) (hread : ReadFrom f s)
    (h : Restores 124 s) : Json.Storable Json.depthLimit s.toJson := by
  rw [toJson_eq, hread.extra]
  exact hf.overlay keys (storable_entries hread h)

/-- Reading undoes writing: a sample that was read from a text, its averages and metrics finite, is
read again from what is written of it, in one line or in several. -/
theorem reading_undoes_writing {text : String} {s : Sample} (h : ofText text = .ok s)
    (hfinite : s.Finite) : ∃ t, ofText s.toJson.compact = .ok t ∧
      ofText s.toJson.pretty = .ok t ∧ t.Equal s := by
  obtain ⟨f, hsource, -, hread⟩ := readFrom_of_ofText h
  have hf : f.Storable 126 := storable_of_source? hsource
  have hrestores : Restores 124 s := restores_of_readFrom hf hread hfinite
  have hunknown : Fields.Unknown keys s.extra := hread.extra ▸ hf.ascending.unknown_without keys
  have hstorable := storable_toJson hf hread hrestores
  obtain ⟨t, ht, hequal⟩ := exists_equal_of_writes hread hrestores (writes_toJson hunknown)
  have hjson : ofJson s.toJson = .ok t := ofJson_obj_eq_ok_iff.2 ht
  refine ⟨t, ?_, ?_, hequal⟩
  · rw [ofText, Json.ofText?_compact hstorable]
    exact hjson
  · rw [ofText, Json.ofText?_pretty hstorable]
    exact hjson

/-- A sample with saturated counters, metrics of each kind and unknown fields, in its envelope. -/
def lavish : String :=
  "[\x7b\"CPU\":\x7b\"hertz\":1e30,\"nrcpu\":\" 2 \",\"turbo\":true\x7d," ++
    "\"LLC\":[\x7b\"occupancy\":\"-0.0\"\x7d,\x7b\"id\":1\x7d]," ++
    "\"NUM\":[\x7b\"frag\":0.1\x7d,\x7b\"frag\":\"n/a\"\x7d]," ++
    "\"PSI\":\x7b\"cs10\":\"1.5\"\x7d,\"host\":[null,2.5,\"a\\n\"]," ++
    "\"timestamp\":-9007199254740993\x7d]"

theorem reading_undoes_writing_lavish : ∃ s, ofText lavish = .ok s ∧
    s.timestamp = -9007199254740992 ∧ s.cpu.hertz = 18446744073709551615 ∧ s.cpu.cores = 2 ∧
    s.numaMemory.map NumaMemory.fragmentation = [.number 0.1, .malformed "n/a"] ∧
    s.caches.map CacheDomain.occupancy = [.number (-0), .number 0] ∧
    s.cpu.extra.map (fun field => (field.1, field.2.compact)) = [("turbo", "true")] ∧
    s.extra.map (fun field => (field.1, field.2.compact)) = [("host", "[null,2.5,\"a\\n\"]")] ∧
    s.Finite ∧
    ∃ t, ofText s.toJson.compact = .ok t ∧ ofText s.toJson.pretty = .ok t ∧ t.Equal s := by
  have hcheck : (ofText lavish).toOption.any (fun s => decide (s.timestamp = -9007199254740992 ∧
      s.cpu.hertz = 18446744073709551615 ∧ s.cpu.cores = 2 ∧
      s.numaMemory.map NumaMemory.fragmentation = [.number 0.1, .malformed "n/a"] ∧
      s.caches.map CacheDomain.occupancy = [.number (-0), .number 0] ∧
      s.cpu.extra.map (fun field => (field.1, field.2.compact)) = [("turbo", "true")] ∧
      s.extra.map (fun field => (field.1, field.2.compact)) =
        [("host", "[null,2.5,\"a\\n\"]")] ∧
      s.Finite)) = true := by decide +kernel
  obtain ⟨s, hs, htime, hhertz, hcores, hnodes, hcaches, hcpu, hextra, hfinite⟩ :=
    exists_of_any hcheck
  exact ⟨s, hs, htime, hhertz, hcores, hnodes, hcaches, hcpu, hextra, hfinite,
    reading_undoes_writing hs hfinite⟩

end Sample

end ActivityBoard
