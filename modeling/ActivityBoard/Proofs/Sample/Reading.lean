import ActivityBoard.Proofs.Json.Canonical
import ActivityBoard.Proofs.Process.Table
import ActivityBoard.Sample.Basic
import Mathlib.Data.List.Forall2

namespace ActivityBoard

/-- What is computed to hold of a result holds of one. -/
theorem exists_of_any {ε α : Type} {e : Except ε α} {p : α → Prop} [DecidablePred p]
    (h : e.toOption.any (fun a => decide (p a)) = true) : ∃ a, e = .ok a ∧ p a := by
  cases e with
  | error => cases h
  | ok a => exact ⟨a, rfl, of_decide_eq_true h⟩

namespace Fields

variable {α : Type} {f : Fields} {key : String}

def objectAt? (f : Fields) (key : String) : Option Fields := (f.value key).fields?

def rowsAt (f : Fields) (key : String) : List Fields :=
  ((f.value key).items?.getD []).filterMap Json.fields?

theorem eq_of_required? {make : Fields → α} {a : α} (h : f.required? make key = some a) :
    a = make ((f.objectAt? key).getD []) := by
  unfold required? at h
  unfold objectAt? value
  cases hv : f.get? key with
  | none =>
    rw [hv] at h
    cases h
    rfl
  | some v =>
    rw [hv] at h
    obtain ⟨inner, hinner, rfl⟩ := Option.map_eq_some_iff.1 h
    rw [Option.getD_some, hinner, Option.getD_some]

theorem eq_of_section? {make : Fields → α} {a : Option α} (h : f.section? make key = some a) :
    a = (f.objectAt? key).map make := by
  unfold section? at h
  unfold objectAt?
  split at h
  · rename_i hv
    rw [hv]
    exact (Option.some.inj h).symm
  · rename_i hv
    rw [hv]
    exact (Option.some.inj h).symm
  · cases h

theorem forall₂_of_mapM {row : Fields → Option α} {items : List Json} {rows : List α}
    (h : (items.mapM fun item => item.fields?.bind row) = some rows) :
    List.Forall₂ (fun input a => row input = some a) (items.filterMap Json.fields?) rows := by
  induction items generalizing rows with
  | nil =>
    cases h
    exact .nil
  | cons item items ih =>
    rw [List.mapM_cons] at h
    obtain ⟨a, ha, h⟩ := Option.bind_eq_some_iff.1 h
    obtain ⟨rest, hrest, h⟩ := Option.bind_eq_some_iff.1 h
    obtain ⟨input, hinput, ha⟩ := Option.bind_eq_some_iff.1 ha
    cases h
    rw [List.filterMap_cons_some hinput]
    exact .cons ha (ih hrest)

theorem forall₂_of_rows? {row : Fields → Option α} {rows : List α}
    (h : f.rows? row key = some rows) :
    List.Forall₂ (fun input a => row input = some a) (f.rowsAt key) rows := by
  unfold rows? at h
  unfold rowsAt value
  cases hv : f.get? key with
  | none =>
    rw [hv] at h
    cases h
    exact .nil
  | some v =>
    rw [hv] at h
    obtain ⟨items, hitems, h⟩ := Option.bind_eq_some_iff.1 h
    rw [Option.getD_some, hitems, Option.getD_some]
    exact forall₂_of_mapM h

theorem eq_map_of_rows? {make : Fields → α} {rows : List α}
    (h : f.rows? (fun row => some (make row)) key = some rows) :
    rows = (f.rowsAt key).map make := by
  have hrows := forall₂_of_rows? h
  clear h
  generalize f.rowsAt key = inputs at hrows ⊢
  induction hrows with
  | nil => rfl
  | cons hrow _ ih =>
    cases hrow
    rw [List.map_cons, ← ih]

theorem value_eq_null_or_mem (h : f.Ascending) (key : String) :
    f.value key = .null ∨ (key, f.value key) ∈ f := by
  rw [Fields.value]
  cases hv : f.get? key with
  | none => exact .inl rfl
  | some v => exact .inr ((get?_eq_some_iff_mem h.nodup).1 hv)

theorem value_of_objectAt? {inner : Fields} (h : f.objectAt? key = some inner) :
    f.value key = .obj inner := by
  rw [Fields.objectAt?] at h
  cases hv : f.value key with
  | obj fields =>
    rw [hv] at h
    cases h
    rfl
  | _ =>
    rw [hv] at h
    cases h

theorem value_of_mem_rowsAt {row : Fields} (h : row ∈ f.rowsAt key) :
    ∃ items, f.value key = .arr items ∧ .obj row ∈ items := by
  obtain ⟨item, hitem, hrow⟩ := List.mem_filterMap.1 h
  cases hv : f.value key with
  | arr items =>
    rw [hv] at hitem
    cases item with
    | obj fields =>
      cases hrow
      exact ⟨items, rfl, hitem⟩
    | _ => cases hrow
  | _ =>
    rw [hv] at hitem
    cases hitem

def Canonical (f : Fields) : Prop := (Json.obj f).Canonical

theorem Canonical.ascending (h : f.Canonical) : f.Ascending := (Json.canonical_obj_iff.1 h).1

theorem Canonical.value (h : f.Canonical) (key : String) : (f.value key).Canonical := by
  obtain ⟨hf, hfields⟩ := Json.canonical_obj_iff.1 h
  obtain hnull | hmem := value_eq_null_or_mem hf key
  · rw [hnull]
    exact .null
  · exact hfields _ hmem

theorem Canonical.objectAt? (h : f.Canonical) {inner : Fields}
    (hi : f.objectAt? key = some inner) : inner.Canonical := by
  have hv := h.value key
  rwa [value_of_objectAt? hi] at hv

theorem Canonical.rowsAt (h : f.Canonical) {row : Fields} (hr : row ∈ f.rowsAt key) :
    row.Canonical := by
  obtain ⟨items, hitems, hrow⟩ := value_of_mem_rowsAt hr
  have hv := h.value key
  rw [hitems] at hv
  exact Json.canonical_arr_iff.1 hv _ hrow

def pid (row : Fields) : Nat := (row.value "pid").count32

def lastRow? (f : Fields) (table : String) (p : Nat) : Option Fields :=
  Table.latest? pid (f.rowsAt table) p

theorem Canonical.lastRow? (h : f.Canonical) {table : String} {p : Nat} {row : Fields}
    (hr : f.lastRow? table p = some row) : row.Canonical :=
  h.rowsAt (Table.latest?_eq_some_iff.1 hr).mem

theorem exists_of_forall₂ {make : Fields → Option α} {inputs : List Fields} {rows : List α}
    (h : List.Forall₂ (fun input a => make input = some a) inputs rows) {input : Fields}
    (hi : input ∈ inputs) : ∃ a, make input = some a := by
  induction h with
  | nil => cases hi
  | @cons first a inputs rows ha _ ih =>
    obtain rfl | hi := List.mem_cons.1 hi
    · exact ⟨a, ha⟩
    · exact ih hi

theorem latest?_of_forall₂ {pidOf : α → Nat} {make : Fields → Option α} {inputs : List Fields}
    {rows : List α} (hpid : ∀ input a, make input = some a → pidOf a = input.pid)
    (h : List.Forall₂ (fun input a => make input = some a) inputs rows) (p : Nat) :
    Table.latest? pidOf rows p = (Table.latest? pid inputs p).bind make := by
  induction h with
  | nil => rfl
  | @cons input a inputs rows ha hrest ih =>
    rw [Table.latest?_cons, Table.latest?_cons, ih, hpid input a ha]
    -- Without a later row of the pid the first one may be its last.
    cases hl : Table.latest? pid inputs p with
    | none =>
      by_cases hp : input.pid = p
      · simp [hp, ha]
      · simp [hp]
    | some last =>
      obtain ⟨b, hb⟩ := exists_of_forall₂ hrest (Table.latest?_eq_some_iff.1 hl).mem
      simp [hb]

end Fields

namespace Sample

/-- Each part of the sample is what the document has for it. -/
structure ReadFrom (f : Fields) (s : Sample) : Prop where
  timestamp : s.timestamp = (f.value "timestamp").int64
  elapsed : s.elapsed = (f.value "elapsed").int64
  cpu : s.cpu = CpuTotals.ofFields ((f.objectAt? "CPU").getD [])
  cores : s.cores = (f.rowsAt "cpu").map CpuCore.ofFields
  load : s.load = f.objectAt? "CPL"
  memory : s.memory = (f.objectAt? "MEM").map MemoryStats.ofFields
  pressure : s.pressure = (f.objectAt? "PSI").map Pressure.ofFields
  volumes : List.Forall₂ (fun input row => LogicalVolume.ofFields? input = some row)
    (f.rowsAt "LVM") s.volumes
  disks : s.disks = (f.rowsAt "DSK").map Disk.ofFields
  interfaces : s.interfaces = (f.rowsAt "NET").map Interface.ofFields
  numaMemory : List.Forall₂ (fun input row => NumaMemory.ofFields? input = some row)
    (f.rowsAt "NUM") s.numaMemory
  numaCpu : s.numaCpu = f.rowsAt "NUC"
  caches : List.Forall₂ (fun input row => CacheDomain.ofFields? input = some row) (f.rowsAt "LLC")
    s.caches
  identities : List.Forall₂ (fun input row => Identity.ofFields? input = some row)
    (f.rowsAt "PRG") s.identities
  cpuUse : s.cpuUse = (f.rowsAt "PRC").map CpuUse.ofFields
  memoryUse : s.memoryUse = (f.rowsAt "PRM").map MemoryUse.ofFields
  diskUse : s.diskUse = (f.rowsAt "PRD").map DiskUse.ofFields
  extra : s.extra = f.without keys

theorem readFrom_of_ofFields? {f : Fields} {s : Sample} (h : ofFields? f = some s) :
    ReadFrom f s := by
  unfold ofFields? at h
  obtain ⟨cpu, hcpu, h⟩ := Option.bind_eq_some_iff.1 h
  obtain ⟨cores, hcores, h⟩ := Option.bind_eq_some_iff.1 h
  obtain ⟨load, hload, h⟩ := Option.bind_eq_some_iff.1 h
  obtain ⟨memory, hmemory, h⟩ := Option.bind_eq_some_iff.1 h
  obtain ⟨pressure, hpressure, h⟩ := Option.bind_eq_some_iff.1 h
  obtain ⟨volumes, hvolumes, h⟩ := Option.bind_eq_some_iff.1 h
  obtain ⟨disks, hdisks, h⟩ := Option.bind_eq_some_iff.1 h
  obtain ⟨interfaces, hinterfaces, h⟩ := Option.bind_eq_some_iff.1 h
  obtain ⟨numaMemory, hnumaMemory, h⟩ := Option.bind_eq_some_iff.1 h
  obtain ⟨numaCpu, hnumaCpu, h⟩ := Option.bind_eq_some_iff.1 h
  obtain ⟨caches, hcaches, h⟩ := Option.bind_eq_some_iff.1 h
  obtain ⟨identities, hidentities, h⟩ := Option.bind_eq_some_iff.1 h
  obtain ⟨cpuUse, hcpuUse, h⟩ := Option.bind_eq_some_iff.1 h
  obtain ⟨memoryUse, hmemoryUse, h⟩ := Option.bind_eq_some_iff.1 h
  obtain ⟨diskUse, hdiskUse, h⟩ := Option.bind_eq_some_iff.1 h
  cases h
  exact {
    timestamp := rfl
    elapsed := rfl
    cpu := Fields.eq_of_required? hcpu
    cores := Fields.eq_map_of_rows? hcores
    load := (Fields.eq_of_section? hload).trans Option.map_id'
    memory := Fields.eq_of_section? hmemory
    pressure := Fields.eq_of_section? hpressure
    volumes := Fields.forall₂_of_rows? hvolumes
    disks := Fields.eq_map_of_rows? hdisks
    interfaces := Fields.eq_map_of_rows? hinterfaces
    numaMemory := Fields.forall₂_of_rows? hnumaMemory
    numaCpu := (Fields.eq_map_of_rows? hnumaCpu).trans (List.map_id' _)
    caches := Fields.forall₂_of_rows? hcaches
    identities := Fields.forall₂_of_rows? hidentities
    cpuUse := Fields.eq_map_of_rows? hcpuUse
    memoryUse := Fields.eq_map_of_rows? hmemoryUse
    diskUse := Fields.eq_map_of_rows? hdiskUse
    extra := rfl }

/-- The object of a document, which may stand in an envelope. -/
def object? : Json → Option Fields
  | .obj f => some f
  | .arr [.obj f] => some f
  | _ => none

def source? (text : String) : Option Fields := (Json.ofText? text).bind object?

theorem ofJson_obj (f : Fields) :
    ofJson (.obj f) = (ofFields? f).elim (.error .wrongShape) .ok := by
  simp only [ofJson, pure, Except.pure, bind, Except.bind]
  cases ofFields? f with
  | none => rfl
  | some s => rfl

theorem ofJson_obj_eq_ok_iff {f : Fields} {s : Sample} :
    ofJson (.obj f) = .ok s ↔ ofFields? f = some s := by
  rw [ofJson_obj]
  cases ofFields? f with
  | none => simp
  | some t => simp

theorem ofFields?_of_ofJson {v : Json} {s : Sample} (h : ofJson v = .ok s) :
    ∃ f, object? v = some f ∧ ofFields? f = some s := by
  cases v with
  | obj f => exact ⟨f, rfl, ofJson_obj_eq_ok_iff.1 h⟩
  | arr items =>
    match items with
    | [] => cases h
    | [item] =>
      cases item with
      | obj f => exact ⟨f, rfl, ofJson_obj_eq_ok_iff.1 h⟩
      | _ => cases h
    | _ :: _ :: _ => cases h
  | _ => cases h

theorem canonical_of_object? {v : Json} {f : Fields} (hv : v.Canonical) (h : object? v = some f) :
    f.Canonical := by
  unfold object? at h
  split at h
  · cases h
    exact hv
  · cases h
    cases hv with
    | arr hitems => exact hitems _ (List.mem_singleton_self _)
  · cases h

theorem readFrom_of_ofText {text : String} {s : Sample} (h : ofText text = .ok s) :
    ∃ f, source? text = some f ∧ f.Canonical ∧ ReadFrom f s := by
  rw [ofText] at h
  cases hv : Json.ofText? text with
  | none =>
    rw [hv] at h
    cases h
  | some v =>
    rw [hv] at h
    obtain ⟨f, hf, hs⟩ := ofFields?_of_ofJson h
    refine ⟨f, ?_, canonical_of_object? (Json.canonical_of_ofText? hv) hf,
      readFrom_of_ofFields? hs⟩
    rw [source?, hv]
    exact hf

end Sample

end ActivityBoard
