import ActivityBoard.Proofs.Board.Records
import Mathlib.Data.List.Perm.Subperm

namespace ActivityBoard

section Kept

variable {α β : Type} {made : Fields → α → Prop} {inputs : List Fields} {limit : Nat}

/-- The rows are made of inputs, each of another one, and there are as many as the limit allows. -/
def Kept (limit : Nat) (made : Fields → α → Prop) (inputs : List Fields) (rows : List α) : Prop :=
  ∃ kept : List Fields, kept.Subperm inputs ∧ kept.length = min limit inputs.length ∧
    List.Forall₂ made kept rows

theorem kept_take {items sorted : List α} (h : List.Forall₂ made inputs items)
    (hp : sorted.Perm items) (limit : Nat) : Kept limit made inputs (sorted.take limit) := by
  -- What sorts the rows sorts the inputs along with them.
  obtain ⟨kept, hkept, hperm⟩ := List.perm_comp_forall₂ hp h.flip
  refine ⟨kept.take limit, ?_, ?_, List.forall₂_take limit hkept.flip⟩
  · exact (List.take_sublist limit kept).subperm.trans hperm.subperm
  · rw [List.length_take, hperm.length_eq]

theorem Kept.imp {made' : Fields → α → Prop} {rows : List α} (h : Kept limit made inputs rows)
    (hi : ∀ input ∈ inputs, ∀ row, made input row → made' input row) :
    Kept limit made' inputs rows := by
  obtain ⟨kept, hsub, hlength, hmade⟩ := h
  have hkept : ∀ input ∈ kept, ∀ row, made input row → made' input row :=
    fun input hm => hi input (hsub.subset hm)
  refine ⟨kept, hsub, hlength, ?_⟩
  clear hsub hlength
  induction hmade with
  | nil => exact .nil
  | cons hrow _ ih =>
    obtain ⟨hinput, hrest⟩ := List.forall_mem_cons.1 hkept
    exact .cons (hinput _ hrow) (ih hrest)

theorem forall₂_map (make : Fields → α) (inputs : List Fields) :
    List.Forall₂ (fun input row => row = make input) inputs (inputs.map make) := by
  apply List.forall₂_map_right_iff.2
  exact List.forall₂_same.2 fun _ _ => rfl

theorem forall₂_zipIdx {items : List α} (h : List.Forall₂ made inputs items) (number : α × Nat → β)
    (k : Nat) : List.Forall₂ (fun input row => ∃ item i, made input item ∧ row = number (item, i))
      inputs ((items.zipIdx k).map number) := by
  induction h generalizing k with
  | nil => exact .nil
  | cons hitem _ ih => exact .cons ⟨_, k, hitem, rfl⟩ (ih (k + 1))

end Kept

namespace Board

variable {f : Fields} {settings : Settings} {board : Board}

def ReadsVolume (b : Board) (input : Fields) (row : VolumeSummary) : Prop :=
  ∃ volume, LogicalVolume.ofFields? input = some volume ∧
    row = VolumeSummary.ofVolume volume b.capacity.coreMillis b.elapsed

def ReadsDisk (b : Board) (input : Fields) (row : DiskSummary) : Prop :=
  row = DiskSummary.ofDisk (Disk.ofFields input) b.capacity.coreMillis b.elapsed

def ReadsNode (input : Fields) (row : NumaNode) : Prop :=
  ∃ node i, NumaMemory.ofFields? input = some node ∧
    row = ⟨i, ⟨node.fragmentation.value?.getD .nan, 2⟩, node.extra⟩

/-- Each part of the board is made of what the document has for it. -/
structure MadeFrom (f : Fields) (limits : Limits) (b : Board) : Prop where
  timestamp : b.timestamp = (f.value "timestamp").int64
  elapsed : b.elapsed = (f.value "elapsed").int64
  cpu : b.cpu = CpuSummary.ofTotals (CpuTotals.ofFields ((f.objectAt? "CPU").getD [])) b.capacity
  cores : Kept limits.cpu (fun input row => row = CpuCore.ofFields input) (f.rowsAt "cpu") b.cores
  load : b.load = (f.objectAt? "CPL").map fun input =>
    input.insert "nrcpu" (.int b.cpu.totals.cores)
  memory : b.memory = (f.objectAt? "MEM").map fun input =>
    ⟨MemoryStats.ofFields input, (f.rowsAt "NUM").length⟩
  pressure : b.pressure = (f.objectAt? "PSI").map fun input => ⟨Pressure.ofFields input, b.elapsed⟩
  volumes : Kept limits.lvm b.ReadsVolume (f.rowsAt "LVM") b.volumes
  disks : Kept limits.disk b.ReadsDisk (f.rowsAt "DSK") b.disks
  interfaces : Kept limits.interface (fun input row => row = Interface.ofFields input)
    (f.rowsAt "NET") b.interfaces
  numaMemory : Kept limits.numa ReadsNode (f.rowsAt "NUM") b.numaMemory
  numaCpu : Kept limits.numa (fun input row => row = input) (f.rowsAt "NUC") b.numaCpu
  caches : Kept limits.llc (fun input row => CacheDomain.ofFields? input = some row)
    (f.rowsAt "LLC") b.caches
  records : ∀ r ∈ b.processes.records, ProcessRecord.MadeFrom f r
  extra : b.extra = f.without Sample.keys

theorem madeFrom_records {s : Sample} (hs : Sample.ReadFrom f s) (settings : Settings)
    {r : ProcessRecord} (hr : r ∈ (uncut s settings).processes.records) :
    ProcessRecord.MadeFrom f r := by
  obtain ⟨g, hg, rfl⟩ := List.mem_map.1 ((ProcessRecord.ranked_perm settings.sort _).subset hr)
  exact ProcessRecord.madeFrom_joined hs (ProcessTables.mem_chosen.1 hg).1 _

theorem madeFrom_cut {s : Sample} (hs : Sample.ReadFrom f s) (settings : Settings)
    (limits : Limits) : MadeFrom f limits ((uncut s settings).cut limits) where
  timestamp := hs.timestamp
  elapsed := hs.elapsed
  cpu := congrArg (CpuSummary.ofTotals · _) hs.cpu
  cores := by
    have hrows := forall₂_map CpuCore.ofFields (f.rowsAt "cpu")
    rw [← hs.cores] at hrows
    exact kept_take hrows (ranked_perm ..) limits.cpu
  load := by
    change s.load.map _ = _
    rw [hs.load]
    rfl
  memory := by
    change s.memory.map _ = _
    rw [hs.memory, Option.map_map, hs.numaMemory.length_eq]
    rfl
  pressure := by
    change s.pressure.map _ = _
    rw [hs.pressure, Option.map_map]
    rfl
  volumes := by
    apply kept_take _ (.refl _)
    apply List.forall₂_map_right_iff.2
    exact hs.volumes.imp fun _ volume hvolume => ⟨volume, hvolume, rfl⟩
  disks := by
    have hrows := forall₂_map (fun input => DiskSummary.ofDisk (Disk.ofFields input)
      (Capacity.ofSample s.cpu s.memory).coreMillis s.elapsed) (f.rowsAt "DSK")
    apply kept_take hrows
    change (ranked _ _ _).Perm _
    rw [hs.disks, List.map_map]
    exact ranked_perm ..
  interfaces := by
    have hrows := forall₂_map Interface.ofFields (f.rowsAt "NET")
    rw [← hs.interfaces] at hrows
    exact kept_take hrows (ranked_perm ..) limits.interface
  numaMemory := by
    have hrows := forall₂_zipIdx hs.numaMemory (fun p => NumaNode.mk p.2
      ⟨p.1.fragmentation.value?.getD .nan, 2⟩ p.1.extra) 0
    exact kept_take hrows (.refl _) limits.numa
  numaCpu := by
    have hrows : List.Forall₂ (fun input row => row = input) (f.rowsAt "NUC") s.numaCpu := by
      rw [hs.numaCpu]
      exact List.forall₂_same.2 fun _ _ => rfl
    exact kept_take hrows (.refl _) limits.numa
  caches := kept_take hs.caches (ranked_perm ..) limits.llc
  records r hr := madeFrom_records hs settings (List.mem_of_mem_take hr)
  extra := hs.extra

theorem madeFrom_of_ofText {text : String} (h : ofText text settings = .ok board) :
    ∃ f, Sample.source? text = some f ∧ f.Canonical ∧ MadeFrom f settings.limits board := by
  obtain ⟨s, hs, hb⟩ := ofText_eq_ok h
  obtain ⟨f, hf, hcanonical, hread⟩ := Sample.readFrom_of_ofText hs
  obtain ⟨_, rfl⟩ := ofSample_eq_ok_iff.1 hb
  exact ⟨f, hf, hcanonical, madeFrom_cut hread ..⟩

end Board

end ActivityBoard
