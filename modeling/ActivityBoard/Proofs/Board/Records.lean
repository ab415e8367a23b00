import ActivityBoard.Proofs.Board.Sample
import ActivityBoard.Proofs.Json.Overlay
import ActivityBoard.Proofs.Process.Join
import ActivityBoard.Proofs.Sample.Reading

/-!
A process record in terms of the document that its sample was read from: the last rows of its pid
make it, and what these have under unknown keys stands over its own fields.
-/
namespace ActivityBoard

theorem findSome?_cons_eq_or {α β : Type} (g : α → Option β) (a : α) (l : List α) :
    (a :: l).findSome? g = (g a).or (l.findSome? g) := by
  rw [List.findSome?_cons]
  cases g a <;> rfl

namespace Fields

variable {f : Fields} {key : String} {p : Nat}

/-- What the last row of a pid has under a key, in the last of the tables where it has any. -/
def givenBy? (f : Fields) (tables : List String) (p : Nat) (key : String) : Option Json :=
  tables.reverse.findSome? fun table => (f.lastRow? table p).bind (·.get? key)

theorem isSome_givenBy? {tables : List String} : (f.givenBy? tables p key).isSome ↔
    ∃ table ∈ tables, ∃ row, f.lastRow? table p = some row ∧ (row.get? key).isSome := by
  rw [givenBy?, List.findSome?_isSome_iff]
  simp [Option.isSome_bind, Option.any_eq_true]

end Fields

theorem Identity.of_ofFields? {f : Fields} {g : Identity} (h : ofFields? f = some g) :
    g.pid = f.pid ∧ g.extra = f.without keys := by
  obtain ⟨_, _, h⟩ := Option.bind_eq_some_iff.1 h
  obtain ⟨_, _, h⟩ := Option.bind_eq_some_iff.1 h
  obtain ⟨_, _, h⟩ := Option.bind_eq_some_iff.1 h
  cases h
  exact ⟨rfl, rfl⟩

namespace ProcessRecord

variable {f : Fields} {r : ProcessRecord} {key : String}

/-- The record is made of the last rows of its pid; where a table has none, of one of zeros. -/
structure MadeFrom (f : Fields) (r : ProcessRecord) : Prop where
  identity : (f.lastRow? "PRG" r.identity.pid).bind Identity.ofFields? = some r.identity
  cpu : r.cpu = ((f.lastRow? "PRC" r.identity.pid).map CpuUse.ofFields).getD
    (CpuUse.none r.identity.pid)
  memory : r.memory = (((f.lastRow? "PRM" r.identity.pid).map MemoryUse.ofFields).getD
    (MemoryUse.none r.identity.pid)).scaled 1024
  disk : r.disk = (((f.lastRow? "PRD" r.identity.pid).map DiskUse.ofFields).getD
    (DiskUse.none r.identity.pid)).scaled 512

theorem rowOf_map {α : Type} (pidOf : α → Nat) (make : Fields → α)
    (hpid : ∀ input, pidOf (make input) = input.pid) (absent : Nat → α) (table : String) (p : Nat) :
    Table.rowOf pidOf absent ((f.rowsAt table).map make) p =
      ((f.lastRow? table p).map make).getD (absent p) := by
  have hlatest : Table.latest? pidOf ((f.rowsAt table).map make) p =
      (f.lastRow? table p).map make := by
    rw [Fields.lastRow?, Table.latest?, Table.latest?, ← List.map_reverse, List.find?_map]
    simp only [Function.comp_def, hpid]
  rw [Table.rowOf, hlatest]

theorem madeFrom_joined {s : Sample} (h : Sample.ReadFrom f s) {g : Identity}
    (hg : Table.IsLast Identity.pid s.identities g.pid g) (capacity : Capacity) :
    MadeFrom f (s.tables.joined capacity g) where
  identity := by
    change (f.lastRow? "PRG" g.pid).bind Identity.ofFields? = some g
    rw [Fields.lastRow?, ← Table.latest?_eq_some_iff.2 hg]
    exact (Fields.latest?_of_forall₂ (fun _ _ h => (Identity.of_ofFields? h).1) h.identities _).symm
  cpu := by
    change Table.rowOf CpuUse.pid CpuUse.none s.cpuUse g.pid = _
    rw [h.cpuUse]
    exact rowOf_map CpuUse.pid CpuUse.ofFields (fun _ => rfl) ..
  memory := by
    change (Table.rowOf MemoryUse.pid MemoryUse.none s.memoryUse g.pid).scaled 1024 = _
    rw [h.memoryUse, rowOf_map MemoryUse.pid MemoryUse.ofFields fun _ => rfl]
    rfl
  disk := by
    change (Table.rowOf DiskUse.pid DiskUse.none s.diskUse g.pid).scaled 512 = _
    rw [h.diskUse, rowOf_map DiskUse.pid DiskUse.ofFields fun _ => rfl]
    rfl

/-- The tables in the order in which their unknown fields are merged, with the keys known there. -/
def tables : List (String × List String) :=
  [("PRC", CpuUse.keys), ("PRM", MemoryUse.keys), ("PRD", DiskUse.keys), ("PRG", Identity.keys)]

/-- The tables to which a key is unknown. -/
def passedBy (key : String) : List String :=
  (tables.filter fun table => !table.2.contains key).map Prod.fst

def unknownRow (f : Fields) (p : Nat) (table : String × List String) : Fields :=
  ((f.lastRow? table.1 p).map (·.without table.2)).getD []

theorem ascending_unknownRow (hf : f.Canonical) (p : Nat) (table : String × List String) :
    (unknownRow f p table).Ascending := by
  unfold unknownRow
  cases hrow : f.lastRow? table.1 p with
  | none => exact List.Pairwise.nil
  | some row => exact (hf.lastRow? hrow).ascending.without table.2

theorem get?_unknownRow (p : Nat) (table : String × List String) : (unknownRow f p table).get? key =
    if !table.2.contains key then (f.lastRow? table.1 p).bind (·.get? key) else none := by
  unfold unknownRow
  cases f.lastRow? table.1 p with
  | none => exact (ite_self none).symm
  | some row =>
    rw [Option.map_some, Option.getD_some, Fields.get?_without, Option.bind_some]
    by_cases hk : key ∈ table.2
    · simp [hk]
    · simp [hk]

theorem MadeFrom.extra_eq (h : MadeFrom f r) : r.extra =
    (((unknownRow f r.identity.pid ("PRC", CpuUse.keys)).insertAll
      (unknownRow f r.identity.pid ("PRM", MemoryUse.keys))).insertAll
      (unknownRow f r.identity.pid ("PRD", DiskUse.keys))).insertAll
      (unknownRow f r.identity.pid ("PRG", Identity.keys)) := by
  have hcpu : r.cpu.extra = unknownRow f r.identity.pid ("PRC", CpuUse.keys) := by
    rw [h.cpu, unknownRow]
    cases f.lastRow? "PRC" r.identity.pid <;> rfl
  have hmemory : r.memory.extra = unknownRow f r.identity.pid ("PRM", MemoryUse.keys) := by
    rw [h.memory, unknownRow]
    cases f.lastRow? "PRM" r.identity.pid <;> rfl
  have hdisk : r.disk.extra = unknownRow f r.identity.pid ("PRD", DiskUse.keys) := by
    rw [h.disk, unknownRow]
    cases f.lastRow? "PRD" r.identity.pid <;> rfl
  have hidentity : r.identity.extra = unknownRow f r.identity.pid ("PRG", Identity.keys) := by
    obtain ⟨row, hrow, hread⟩ := Option.bind_eq_some_iff.1 h.identity
    rw [unknownRow, hrow]
    exact (Identity.of_ofFields? hread).2
  rw [extra, hcpu, hmemory, hdisk, hidentity]

theorem givenBy?_passedBy (p : Nat) (key : String) : f.givenBy? (passedBy key) p key =
    tables.reverse.findSome? fun table => (unknownRow f p table).get? key := by
  rw [Fields.givenBy?, passedBy, ← List.map_reverse, List.findSome?_map, ← List.filter_reverse,
    ← List.head?_filterMap, List.filterMap_filter, List.head?_filterMap]
  simp only [get?_unknownRow, Function.comp_apply]

theorem MadeFrom.get?_extra (h : MadeFrom f r) (hf : f.Canonical) (key : String) :
    r.extra.get? key = f.givenBy? (passedBy key) r.identity.pid key := by
  have hnodup (table : String × List String) := (ascending_unknownRow hf r.identity.pid table).nodup
  rw [h.extra_eq, Fields.get?_insertAll _ (hnodup _), Fields.get?_insertAll _ (hnodup _),
    Fields.get?_insertAll _ (hnodup _), givenBy?_passedBy]
  -- What is put in last is found first, so the tables are asked from the back.
  change _ = List.findSome? _ [("PRG", Identity.keys), ("PRD", DiskUse.keys),
    ("PRM", MemoryUse.keys), ("PRC", CpuUse.keys)]
  simp only [findSome?_cons_eq_or, List.findSome?_nil, Option.or_none]

theorem MadeFrom.nodup_extra (h : MadeFrom f r) (hf : f.Canonical) :
    (r.extra.map Prod.fst).Nodup := by
  rw [h.extra_eq]
  exact ((((ascending_unknownRow hf _ _).insertAll _).insertAll _).insertAll _).nodup

def keys : List String :=
  ["pid", "name", "cmdline", "state", "tgid", "tid", "isproc", "nthr", "nthrrun", "nthrslpi",
    "nthrslpu", "exitcode", "utime", "stime", "utime_unit_time", "stime_unit_time", "curcpu",
    "cpubusy", "membusy", "diskbusy", "vmem", "rmem", "vexec", "vgrow", "rgrow", "vlibs", "vdata",
    "vstack", "vlock", "vswap", "pmem", "rio", "rsz", "wio", "wsz", "cwsz"]

theorem nodup_entries (r : ProcessRecord) : (r.entries.map Prod.fst).Nodup := by
  change keys.Nodup
  decide

theorem passedBy_of_not_mem (h : key ∉ keys) : passedBy key = ["PRC", "PRM", "PRD", "PRG"] := by
  -- Every key that some table consumes is among those of a record.
  have hknown : ∀ table ∈ tables, table.2 ⊆ keys := by decide
  rw [passedBy, List.filter_eq_self.2]
  · rfl
  · intro table ht
    have hkey : key ∉ table.2 := fun hk => h (hknown table ht hk)
    simpa using hkey

/-- What a record shows under a key: what its rows have there unknown, or else its own value. -/
theorem MadeFrom.get?_toFields (h : MadeFrom f r) (hf : f.Canonical) (key : String) :
    r.toFields.get? key =
      (f.givenBy? (passedBy key) r.identity.pid key).or (Fields.get? r.entries key) := by
  rw [toFields, Fields.get?_insertAll _ (h.nodup_extra hf), h.get?_extra hf,
    Fields.get?_ofList r.nodup_entries]

end ProcessRecord

end ActivityBoard
