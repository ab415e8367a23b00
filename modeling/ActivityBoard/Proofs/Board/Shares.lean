import ActivityBoard.Proofs.Board.Defined
import ActivityBoard.Proofs.Figure
import Mathlib.Algebra.Order.BigOperators.Group.List

namespace ActivityBoard

open Binary64 Figure

/-- Both shares of a process read as at most a hundred. That of memory is not below zero unless the
memory is, and that of the transfers is not unless they and the total have opposite signs. -/
structure ProcessRecord.SharesBounded (transferred : Int) (r : ProcessRecord) : Prop where
  memory : r.memoryBusy.ReadsToHundred
  disk : r.diskBusy.ReadsToHundred
  memory_nonneg : 0 ≤ r.memory.resident → 0 ≤ r.memoryBusy.reading.value
  disk_nonneg : 0 ≤ r.disk.transferred * transferred → 0 ≤ r.diskBusy.reading.value

namespace ProcessTables

variable {capacity : Capacity} {part whole : Binary64}

theorem readsToHundred_share (hp : part.Within 65)
    (hw : whole.isZero = true ∨ whole.Reaches (-10)) : (share part whole).ReadsToHundred := by
  rw [share]
  split
  · exact readsToHundred_zero
  · rename_i hne
    exact readsToHundred_cappedPercent (within_percent hp (hw.resolve_left hne)) (by decide) 1

theorem reading_share_nonneg (hp : part.Within 65)
    (hw : whole.isZero = true ∨ whole.Reaches (-10)) (h : 0 ≤ part.value * whole.value) :
    0 ≤ (share part whole).reading.value := by
  rw [share]
  split
  · rw [reading_zero]
    exact value_ofInt_nonneg (n := 0) le_rfl
  · rename_i hne
    have hhundred : 0 ≤ (100 : Binary64).value := value_ofInt_nonneg (n := 100) (by decide)
    apply reading_cappedPercent_nonneg (within_percent hp (hw.resolve_left hne)) (by decide)
    apply value_div_nonneg
    exact value_mul_mul_nonneg hp.finite within_hundred.finite hhundred h

theorem transferred_scaled (d : DiskUse) : (d.scaled 512).transferred = d.transferred * 512 := by
  simp only [DiskUse.scaled, DiskUse.transferred, DiskUse.netWrite]
  omega

theorem sharesBounded_record {c : CpuUse} {m : MemoryUse} {d : DiskUse} (h : Counted c m d)
    (hc : capacity.Bounded) (total : ℤ) (g : Identity) :
    (record capacity total g c m d).SharesBounded total := by
  have hresident : (ofInt m.resident).Within 65 :=
    (within_ofInt (k := 63) h.resident (by decide)).mono (by norm_num)
  have htransferred : (ofInt d.transferred).Within 65 := within_ofInt h.transferred (by decide)
  have hmemory := hc.memory.imp_right Between.reaches
  have htotal := isZero_or_reaches_ofInt total
  refine ⟨readsToHundred_share hresident hmemory, readsToHundred_share htransferred htotal, ?_, ?_⟩
  · intro hm
    have hscaled : 0 ≤ m.resident := by
      have hbytes : 0 ≤ m.resident * 1024 := hm
      omega
    exact reading_share_nonneg hresident hmemory
      (mul_nonneg (value_ofInt_nonneg hscaled) hc.finite_memory.2)
  · intro hd
    have hscaled : 0 ≤ d.transferred * total := by
      have hbytes : 0 ≤ (d.scaled 512).transferred * total := hd
      rw [transferred_scaled, mul_right_comm] at hbytes
      omega
    exact reading_share_nonneg htransferred htotal (value_ofInt_mul_nonneg hscaled)

theorem transferred_eq_sum_rows (t : ProcessTables) : t.transferred =
    ((Table.distinct DiskUse.pid t.disk).map DiskUse.transferred).sum := by
  rw [List.sum_eq_foldr, List.foldr_map, transferred]

theorem transferred_nonneg {t : ProcessTables} (h : ∀ d ∈ t.disk, 0 ≤ d.transferred) :
    0 ≤ t.transferred := by
  rw [transferred_eq_sum_rows]
  apply List.sum_nonneg
  intro n hn
  obtain ⟨d, hd, rfl⟩ := List.mem_map.1 hn
  exact h d (Table.mem_distinct.1 hd).mem

theorem nonneg_joined (t : ProcessTables) (hmemory : ∀ m ∈ t.memory, 0 ≤ m.resident)
    (hdisk : ∀ d ∈ t.disk, 0 ≤ d.transferred) (capacity : Capacity) (g : Identity) :
    0 ≤ (t.joined capacity g).memory.resident ∧ 0 ≤ (t.joined capacity g).disk.transferred := by
  have hresident : 0 ≤ (Table.rowOf MemoryUse.pid MemoryUse.none t.memory g.pid).resident :=
    rowOf_of_forall (fun m : MemoryUse => 0 ≤ m.resident) hmemory (fun _ => le_rfl) g.pid
  have hmoved : 0 ≤ (Table.rowOf DiskUse.pid DiskUse.none t.disk g.pid).transferred :=
    rowOf_of_forall (fun d : DiskUse => 0 ≤ d.transferred) hdisk (fun _ => le_rfl) g.pid
  exact ⟨mul_nonneg hresident (by decide),
    (mul_nonneg hmoved (by decide)).trans_eq (transferred_scaled _).symm⟩

end ProcessTables

namespace Board

variable {b : Board} {text : String} {settings : Settings}

/-- The shares on the board are bounded, and none is below zero if no row has negative counters. -/
structure SharesBounded (s : Sample) (b : Board) : Prop where
  records : ∀ r ∈ b.processes.records, r.SharesBounded s.tables.transferred
  nonneg : (∀ m ∈ s.memoryUse, 0 ≤ m.resident) → (∀ d ∈ s.diskUse, 0 ≤ d.transferred) →
    ∀ r ∈ b.processes.records,
      0 ≤ r.memoryBusy.reading.value ∧ 0 ≤ r.diskBusy.reading.value

theorem sharesBounded_cut {f : Fields} {s : Sample} (h : Sample.ReadFrom f s)
    (settings : Settings) (limits : Limits) :
    ((uncut s settings).cut limits).SharesBounded s := by
  have hbounded : ∀ r ∈ ((uncut s settings).cut limits).processes.records,
      r.SharesBounded s.tables.transferred := by
    intro r hr
    obtain ⟨g, rfl⟩ := exists_joined_of_mem_cut hr
    exact ProcessTables.sharesBounded_record (ProcessTables.counted_rowOf h g.pid)
      (bounded_capacity h) _ g
  refine ⟨hbounded, fun hmemory hdisk r hr => ?_⟩
  have hr' := hbounded r hr
  have htotal : 0 ≤ s.tables.transferred := ProcessTables.transferred_nonneg hdisk
  obtain ⟨g, rfl⟩ := exists_joined_of_mem_cut hr
  obtain ⟨hresident, hmoved⟩ := s.tables.nonneg_joined hmemory hdisk _ g
  exact ⟨hr'.memory_nonneg hresident, hr'.disk_nonneg (mul_nonneg hmoved htotal)⟩

/-- Whatever a sample counts, no share on its board reads above a hundred, and none below zero that
is a part of the sign of its whole. -/
theorem sharesBounded_of_ofText (h : ofText text settings = .ok b) :
    ∃ s, Sample.ofText text = .ok s ∧ b.SharesBounded s := by
  obtain ⟨s, hs, hb⟩ := ofText_eq_ok h
  obtain ⟨f, -, -, hread⟩ := Sample.readFrom_of_ofText hs
  obtain ⟨-, rfl⟩ := ofSample_eq_ok_iff.1 hb
  exact ⟨s, hs, sharesBounded_cut hread _ _⟩

def overdrawn : Json :=
  .obj [("MEM", .obj [("physmem", .int 1048576)]),
    ("PRG", .arr [.obj [("isproc", .int 1), ("pid", .int 1)]]),
    ("PRM", .arr [.obj [("pid", .int 1), ("rmem", .int (-512))]])]

theorem sharesBounded_of_ofText_overdrawn :
    ∃ b, ofText overdrawn.compact { missing := .empty } = .ok b ∧
      (b.processes.records.map fun r => (r.memory.resident, r.memoryBusy.text)) =
        [(-524288, "-50.0")] ∧
      ∃ s, Sample.ofText overdrawn.compact = .ok s ∧ b.SharesBounded s := by
  have hcheck : (ofText overdrawn.compact { missing := .empty }).toOption.any (fun b =>
      decide ((b.processes.records.map fun r => (r.memory.resident, r.memoryBusy.text)) =
        [(-524288, "-50.0")])) = true := by decide +kernel
  obtain ⟨b, hb, hrecords⟩ := exists_of_any_ofText hcheck
  exact ⟨b, hb, hrecords, sharesBounded_of_ofText hb⟩

/-- The share of such a process reads below zero. -/
theorem reading_overdrawn : ∃ b, ofText overdrawn.compact { missing := .empty } = .ok b ∧
    ∃ r ∈ b.processes.records, ¬ (0 ≤ r.memoryBusy.reading ∧ r.memoryBusy.reading ≤ 100) := by
  have hcheck : (ofText overdrawn.compact { missing := .empty }).toOption.any (fun b =>
      decide (∃ r ∈ b.processes.records,
        ¬ (0 ≤ r.memoryBusy.reading ∧ r.memoryBusy.reading ≤ 100))) = true := by decide +kernel
  exact exists_of_any_ofText hcheck

end Board

end ActivityBoard
