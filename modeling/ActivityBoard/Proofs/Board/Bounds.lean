import ActivityBoard.Board.Machine
import ActivityBoard.Process.Join
import ActivityBoard.Proofs.Binary64.Magnitude
import ActivityBoard.Proofs.Metric

/-!
How great and how small the derived numbers can be, whatever the counters are. No divisor is zero
where it divides, and no quotient leaves the range of finite numbers.
-/
namespace ActivityBoard

open Binary64

namespace Json

theorem count64_le (v : Json) : v.count64 ≤ 2 ^ 64 := by
  have := counter_mem bounds_count64 v
  rw [count64]
  omega

theorem abs_int64_le (v : Json) : |v.int64| ≤ 2 ^ 63 := by
  have := counter_mem bounds_int64 v
  rw [int64, abs_le]
  omega

end Json

structure CpuTotals.Counted (c : CpuTotals) : Prop where
  hertz : c.hertz ≤ 2 ^ 64
  cores : c.cores ≤ 2 ^ 64
  idle : c.times.idle ≤ 2 ^ 64
  wait : c.times.wait ≤ 2 ^ 64
  total : c.times.total ≤ 2 ^ 67

theorem CpuTotals.counted_ofFields (f : Fields) : (ofFields f).Counted where
  hertz := Json.count64_le _
  cores := Json.count64_le _
  idle := Json.count64_le _
  wait := Json.count64_le _
  total := by
    have hcount (key : String) : (f.value key).count64 ≤ 2 ^ 64 := Json.count64_le _
    have hsystem := hcount "stime"
    have huser := hcount "utime"
    have hnice := hcount "ntime"
    have hidle := hcount "itime"
    have hwait := hcount "wtime"
    have hinterrupt := hcount "Itime"
    have hsoft := hcount "Stime"
    have hsteal := hcount "steal"
    simp only [ofFields, CpuTimes.ofFields, CpuTimes.total]
    omega

structure DeviceIo.Counted (io : DeviceIo) : Prop where
  busyMillis : io.busyMillis ≤ 2 ^ 64
  sectorsRead : io.sectorsRead ≤ 2 ^ 64
  sectorsWritten : io.sectorsWritten ≤ 2 ^ 64

theorem DeviceIo.counted_ofFields (f : Fields) : (ofFields f).Counted :=
  ⟨Json.count64_le _, Json.count64_le _, Json.count64_le _⟩

namespace Capacity

variable {cpu : CpuTotals} {c : Capacity} {n k : ℕ}

theorem between_atLeastOne (h : n ≤ 2 ^ k) (hk : InRange k) : (ofNat (max n 1)).Between 0 k :=
  between_ofNat (by omega) (max_le h Nat.one_le_two_pow) hk

theorem ticks_eq (cpu : CpuTotals) : ticks cpu = ofNat (max cpu.times.total 1) := by
  rw [ticks]
  split
  · rename_i hzero
    rw [hzero]
    rfl
  · rename_i total hne
    rw [Nat.max_eq_left (Nat.one_le_iff_ne_zero.2 hne)]

theorem between_ticks (h : cpu.Counted) : (ticks cpu).Between 0 67 := by
  rw [ticks_eq]
  exact between_atLeastOne h.total (by decide)

/-- Every denominator is finite, and what is not zero is well above the least numbers. -/
structure Bounded (c : Capacity) : Prop where
  coreMillis : c.coreMillis.Between (-128) 77
  coreTicks : c.coreTicks.Between (-64) 67
  memory : c.memory.isZero = true ∨ c.memory.Between (-10) 64

theorem Bounded.finite_memory (h : c.Bounded) : c.memory.isFinite = true ∧ 0 ≤ c.memory.value := by
  obtain hzero | hbetween := h.memory
  · have hfinite := isFinite_of_isZero hzero
    exact ⟨hfinite, ((isZero_iff hfinite).1 hzero).ge⟩
  · exact ⟨hbetween.finite, hbetween.nonneg⟩

theorem bounded_ofSample {memory : Option MemoryStats} (h : cpu.Counted)
    (hm : ∀ m ∈ memory, m.physical ≤ 2 ^ 64) : (ofSample cpu memory).Bounded := by
  have hticks := between_ticks h
  have hcores : (ofNat (max cpu.cores 1)).Between 0 64 :=
    between_atLeastOne h.cores (by decide)
  have hhertz : (ofNat (max cpu.hertz 1)).Between 0 64 :=
    between_atLeastOne h.hertz (by decide)
  have hthousand : (1000 : Binary64).Between 0 10 :=
    between_ofNat (n := 1000) (by norm_num) (by norm_num) (by decide)
  have hkilo : (1024 : Binary64).Between 0 10 :=
    between_ofNat (n := 1024) (by norm_num) (by norm_num) (by decide)
  refine ⟨?_, ?_, ?_⟩
  · have hmillis := hticks.mul hthousand (by decide) (by decide)
    have hseconds := hmillis.div hhertz (by decide) (by decide)
    exact hseconds.div hcores (by decide) (by decide)
  · exact hticks.div hcores (by decide) (by decide)
  · cases memory with
    | none =>
      left
      change (0 : Binary64).isZero = true
      decide +kernel
    | some m =>
      obtain hzero | hne := eq_or_ne m.physical 0
      · left
        change (ofNat m.physical / 1024).isZero = true
        rw [hzero]
        decide +kernel
      · right
        have hphysical : (ofNat m.physical).Between 0 64 :=
          between_ofNat hne (hm m rfl) (by decide)
        exact hphysical.div hkilo (by decide) (by decide)

end Capacity

section Sections

variable {capacity : Capacity} {elapsed : ℤ} {n : ℕ}

theorem within_hundred : (100 : Binary64).Within 7 :=
  within_ofNat (n := 100) (by norm_num) (by decide)

theorem within_literal_zero : (0 : Binary64).Within 0 :=
  within_ofNat (n := 0) (by norm_num) (by decide)

/-- The share of the processor has no guard of its own; it rests on that of the ticks. -/
theorem CpuSummary.finite_busy {totals : CpuTotals} (h : totals.Counted) (hc : capacity.Bounded) :
    (ofTotals totals capacity).busy.value.isFinite = true := by
  have hidle : (ofNat totals.times.idle).Within 64 := within_ofNat h.idle (by decide)
  have hwait : (ofNat totals.times.wait).Within 64 := within_ofNat h.wait (by decide)
  have hactive := (Capacity.between_ticks h).toWithin.sub (hidle.mono (by norm_num)) (by decide)
  have hbusy := hactive.sub (hwait.mono (by norm_num)) (by decide)
  have hshare := hbusy.div hc.coreTicks.reaches (by decide)
  exact (hshare.mul within_hundred (by decide)).finite

theorem PressureSummary.within_ratio (h : n ≤ 2 ^ 64) (elapsed : ℤ) :
    (ratio n elapsed).Within 64 := by
  rw [ratio]
  split
  · exact within_literal_zero.mono (by norm_num)
  · rename_i hne
    dsimp only
    split
    · exact within_hundred.mono (by norm_num)
    · have hscale : (10000 : Binary64).Reaches 0 := reaches_ofNat (n := 10000) (by norm_num)
      have htotal : (ofNat n).Within 64 := within_ofNat h (by decide)
      have hinterval := (reaches_ofInt hne).mul hscale (by decide)
      exact htotal.div hinterval (by decide)

namespace DeviceRates

def figures (r : DeviceRates) : List Figure := [r.serviceTime, r.busy, r.readRate, r.writeRate]

theorem finite_megabytes (h : n ≤ 2 ^ 64) (elapsed : ℤ) :
    (megabytes n elapsed).isFinite = true := by
  rw [megabytes]
  split
  · exact within_literal_zero.finite
  · rename_i hne
    have htwo : (2 : Binary64).Reaches 0 := reaches_ofNat (n := 2) (by norm_num)
    have hkilo : (1024 : Binary64).Reaches 0 := reaches_ofNat (n := 1024) (by norm_num)
    have hsectors : (ofNat n).Within 64 := within_ofNat h (by decide)
    have hhalf := hsectors.div htwo (by decide)
    have hmega := hhalf.div hkilo (by decide)
    exact (hmega.div (reaches_ofInt hne) (by decide)).finite

theorem finite_figures {io : DeviceIo} (h : io.Counted) (hc : capacity.Bounded) (elapsed : ℤ) :
    ∀ figure ∈ (ofIo io capacity.coreMillis elapsed).figures, figure.value.isFinite = true := by
  have hmillis : (ofNat io.busyMillis).Within 64 :=
    within_ofNat h.busyMillis (by decide)
  have hservice : (ofIo io capacity.coreMillis elapsed).serviceTime.value.isFinite = true := by
    rw [ofIo]
    dsimp only
    split
    · exact within_literal_zero.finite
    · rename_i hne
      exact (hmillis.div (reaches_ofNat hne) (by decide)).finite
  have hbusy : (ofIo io capacity.coreMillis elapsed).busy.value.isFinite = true := by
    have hquotient := hmillis.div hc.coreMillis.reaches (by decide)
    rw [ofIo]
    dsimp only
    split
    · exact within_literal_zero.finite
    · exact hquotient.finite
  simp only [figures, List.forall_mem_cons]
  exact ⟨hservice, hbusy, finite_megabytes h.sectorsRead elapsed,
    finite_megabytes h.sectorsWritten elapsed, List.forall_mem_nil _⟩

end DeviceRates

end Sections

def ProcessRecord.figures (r : ProcessRecord) : List Figure := [r.cpuBusy, r.memoryBusy, r.diskBusy]

namespace ProcessTables

variable {capacity : Capacity} {part whole : Binary64}

theorem finite_cappedPercent (h : whole.isFinite = true) (places : ℕ) :
    (Figure.cappedPercent whole places).value.isFinite = true := by
  rw [Figure.cappedPercent]
  split
  · exact within_hundred.finite
  · exact h

theorem within_percent (hp : part.Within 65) (hw : whole.Reaches (-10)) :
    (part * 100 / whole).Within (82 : ℕ) :=
  (hp.mul within_hundred (by decide)).div hw (by decide)

theorem finite_share (hp : part.Within 65) (hw : whole.isZero = true ∨ whole.Reaches (-10)) :
    (share part whole).value.isFinite = true := by
  rw [share]
  split
  · exact within_literal_zero.finite
  · rename_i hne
    exact finite_cappedPercent (within_percent hp (hw.resolve_left hne)).finite 1

theorem isZero_or_reaches_ofInt (n : ℤ) : (ofInt n).isZero = true ∨ (ofInt n).Reaches (-10) := by
  obtain rfl | hne := eq_or_ne n 0
  · exact .inl (by decide +kernel)
  · exact .inr ((reaches_ofInt hne).mono (by norm_num))

/-- What a record takes shares of, each at most a sum of a few counters. -/
structure Counted (c : CpuUse) (m : MemoryUse) (d : DiskUse) : Prop where
  busy : c.busy ≤ 2 ^ 65
  resident : |m.resident| ≤ 2 ^ 63
  transferred : |d.transferred| ≤ 2 ^ 65

theorem busy_ofFields_le (f : Fields) : (CpuUse.ofFields f).busy ≤ 2 ^ 65 := by
  have huser := Json.count64_le (f.value "utime")
  have hsystem := Json.count64_le (f.value "stime")
  simp only [CpuUse.ofFields, CpuUse.busy]
  omega

theorem abs_transferred_ofFields_le (f : Fields) : |(DiskUse.ofFields f).transferred| ≤ 2 ^ 65 := by
  have hread := abs_le.1 (Json.abs_int64_le (f.value "rsz"))
  have hwrite := abs_le.1 (Json.abs_int64_le (f.value "wsz"))
  have hcancelled := abs_le.1 (Json.abs_int64_le (f.value "cwsz"))
  simp only [DiskUse.ofFields, DiskUse.transferred, DiskUse.netWrite, abs_le]
  omega

theorem finite_recordFigures {c : CpuUse} {m : MemoryUse} {d : DiskUse} (h : Counted c m d)
    (hc : capacity.Bounded) (total : ℤ) (g : Identity) :
    ∀ figure ∈ (record capacity total g c m d).figures, figure.value.isFinite = true := by
  have hbusy : (ofNat c.busy).Within 65 := within_ofNat h.busy (by decide)
  have hresident : (ofInt m.resident).Within 63 := within_ofInt h.resident (by decide)
  have htransferred : (ofInt d.transferred).Within 65 := within_ofInt h.transferred (by decide)
  have hcpu : (record capacity total g c m d).cpuBusy.value.isFinite = true := by
    have hticks := hbusy.div hc.coreTicks.reaches (by decide)
    rw [record]
    dsimp only
    split
    · exact within_literal_zero.finite
    · exact (hticks.mul within_hundred (by decide)).finite
  simp only [ProcessRecord.figures, List.forall_mem_cons]
  exact ⟨hcpu,
    finite_share (hresident.mono (by norm_num)) (hc.memory.imp_right Between.reaches),
    finite_share htransferred (isZero_or_reaches_ofInt total), List.forall_mem_nil _⟩

end ProcessTables

end ActivityBoard
