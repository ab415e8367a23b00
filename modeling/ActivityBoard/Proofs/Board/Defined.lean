import ActivityBoard.Proofs.Binary64.FixedPlaces
import ActivityBoard.Proofs.Board.Bounds
import ActivityBoard.Proofs.Board.WellFormed
import ActivityBoard.Proofs.Display.WholePercent

namespace ActivityBoard

open Binary64

/-- The value is finite, and its text is a number to all who read it. -/
structure Figure.Defined (figure : Figure) : Prop where
  finite : figure.value.isFinite = true
  plain : IsPlain figure.text
  rendered : ∀ context, Display.render? .percent context figure.toJson =
    some (Display.percent figure.text)

theorem Figure.defined {figure : Figure} (h : figure.value.isFinite = true) : figure.Defined := by
  have hplain : IsPlain figure.text := isPlain_toFixed h figure.places
  refine ⟨h, hplain, fun context => ?_⟩
  obtain ⟨y, hy⟩ := hplain.exists_ofText
  rw [toJson, Display.render?, hy]

theorem Json.ofMetric_ne_null {x : Binary64} (h : x.isFinite = true) : ofMetric x ≠ .null := by
  obtain ⟨n, hn, -⟩ | hfloat := Metric.ofMetric_cases h
  · rw [hn]
    exact Json.noConfusion
  · rw [hfloat]
    exact Json.noConfusion

theorem Capacity.Bounded.ne_null {c : Capacity} (h : c.Bounded) :
    ∀ field ∈ c.toFields, field.2 ≠ .null := by
  intro field hfield
  have hentry := Fields.mem_of_mem_ofList hfield
  simp only [List.mem_cons, List.not_mem_nil, or_false] at hentry
  obtain rfl | rfl | rfl := hentry
  · exact Json.ofMetric_ne_null h.coreMillis.finite
  · exact Json.ofMetric_ne_null h.coreTicks.finite
  · exact Json.ofMetric_ne_null h.finite_memory.1

namespace PressureSummary

def ratios (p : PressureSummary) : List (String × Binary64) :=
  [("cpusome", ratio p.pressure.cpuSome.total p.elapsed),
    ("iosome", ratio p.pressure.ioSome.total p.elapsed),
    ("iofull", ratio p.pressure.ioFull.total p.elapsed),
    ("memsome", ratio p.pressure.memorySome.total p.elapsed),
    ("memfull", ratio p.pressure.memoryFull.total p.elapsed)]

/-- Every ratio is finite, stands in the document as a number, and is displayed in digits. -/
def Defined (p : PressureSummary) : Prop :=
  ∀ entry ∈ p.ratios, entry.2.isFinite = true ∧
    p.toFields.get? entry.1 = some (Json.ofMetric entry.2) ∧ Json.ofMetric entry.2 ≠ .null ∧
    ∀ context, ∃ text, IsPlain text ∧
      Display.render? .pressure context (Json.ofMetric entry.2) = some (Display.percent text)

theorem defined_ofFields (f : Fields) (elapsed : Int) : Defined ⟨Pressure.ofFields f, elapsed⟩ := by
  intro entry hentry
  have hwithin : entry.2.Within 64 := by
    simp only [ratios, List.mem_cons, List.not_mem_nil, or_false] at hentry
    obtain rfl | rfl | rfl | rfl | rfl := hentry <;> exact within_ratio (Json.count64_le _) elapsed
  have hderived : (entry.1, Json.ofMetric entry.2) ∈
      derived ⟨Pressure.ofFields f, elapsed⟩ := by
    simp only [ratios, List.mem_cons, List.not_mem_nil, or_false] at hentry
    obtain rfl | rfl | rfl | rfl | rfl := hentry <;> simp [derived]
  exact ⟨hwithin.finite, get?_derived _ hderived, Json.ofMetric_ne_null hwithin.finite,
    fun context => ⟨_, isPlain_repr _, Display.render?_pressure hwithin.finite context⟩⟩

end PressureSummary

namespace ProcessTables

theorem rowOf_of_forall {α : Type} (p : α → Prop) {pid : α → Nat} {absent : Nat → α}
    {rows : List α} (h : ∀ row ∈ rows, p row) (habsent : ∀ n, p (absent n)) (n : Nat) :
    p (Table.rowOf pid absent rows n) := by
  rw [Table.rowOf]
  cases hl : Table.latest? pid rows n with
  | none => exact habsent n
  | some row => exact h row (Table.latest?_eq_some_iff.1 hl).mem

theorem counted_rowOf {f : Fields} {s : Sample} (h : Sample.ReadFrom f s) (p : Nat) :
    Counted (Table.rowOf CpuUse.pid CpuUse.none s.cpuUse p)
      (Table.rowOf MemoryUse.pid MemoryUse.none s.memoryUse p)
      (Table.rowOf DiskUse.pid DiskUse.none s.diskUse p) where
  busy := by
    apply rowOf_of_forall (fun c : CpuUse => c.busy ≤ 2 ^ 65) _ fun _ => Nat.zero_le _
    rw [h.cpuUse]
    exact List.forall_mem_map.2 fun input _ => busy_ofFields_le input
  resident := by
    have hnone (n : Nat) : |(MemoryUse.none n).resident| ≤ 2 ^ 63 := by simp [MemoryUse.none]
    apply rowOf_of_forall (fun m : MemoryUse => |m.resident| ≤ 2 ^ 63) _ hnone
    rw [h.memoryUse]
    exact List.forall_mem_map.2 fun input _ => Json.abs_int64_le _
  transferred := by
    have hnone (n : Nat) : |(DiskUse.none n).transferred| ≤ 2 ^ 65 := by
      simp [DiskUse.none, DiskUse.transferred, DiskUse.netWrite]
    apply rowOf_of_forall (fun d : DiskUse => |d.transferred| ≤ 2 ^ 65) _ hnone
    rw [h.diskUse]
    exact List.forall_mem_map.2 fun input _ => abs_transferred_ofFields_le input

end ProcessTables

namespace Board

variable {f : Fields} {b : Board}

/-- No derived number is undefined, and the capacity that others are shares of is positive. -/
structure Defined (b : Board) : Prop where
  coreMillis : b.capacity.coreMillis.isFinite = true ∧ 0 < b.capacity.coreMillis.value
  coreTicks : b.capacity.coreTicks.isFinite = true ∧ 0 < b.capacity.coreTicks.value
  memory : b.capacity.memory.isFinite = true ∧ 0 ≤ b.capacity.memory.value
  capacity : ∀ field ∈ b.capacity.toFields, field.2 ≠ .null
  cpu : b.cpu.busy.Defined
  volumes : ∀ v ∈ b.volumes, ∀ figure ∈ v.rates.figures, figure.Defined
  disks : ∀ d ∈ b.disks, ∀ figure ∈ d.rates.figures, figure.Defined
  pressure : ∀ p ∈ b.pressure, p.Defined
  records : ∀ r ∈ b.processes.records, ∀ figure ∈ r.figures, figure.Defined

theorem bounded_capacity {s : Sample} (h : Sample.ReadFrom f s) :
    (Capacity.ofSample s.cpu s.memory).Bounded := by
  apply Capacity.bounded_ofSample
  · rw [h.cpu]
    exact CpuTotals.counted_ofFields _
  · intro m hm
    rw [h.memory] at hm
    obtain ⟨input, -, rfl⟩ := Option.map_eq_some_iff.1 hm
    exact Json.count64_le _

theorem exists_joined_of_mem_cut {s : Sample} {settings : Settings} {limits : Limits}
    {r : ProcessRecord} (hr : r ∈ ((uncut s settings).cut limits).processes.records) :
    ∃ g, r = s.tables.joined (Capacity.ofSample s.cpu s.memory) g := by
  obtain ⟨g, -, rfl⟩ := List.mem_map.1
    ((ProcessRecord.ranked_perm settings.sort _).subset (List.mem_of_mem_take hr))
  exact ⟨g, rfl⟩

theorem defined_cut {s : Sample} (h : Sample.ReadFrom f s) (settings : Settings)
    (limits : Limits) : ((uncut s settings).cut limits).Defined := by
  have hc := bounded_capacity h
  have hmade := madeFrom_cut h settings limits
  refine {
    coreMillis := ⟨hc.coreMillis.finite, hc.coreMillis.pos⟩
    coreTicks := ⟨hc.coreTicks.finite, hc.coreTicks.pos⟩
    memory := hc.finite_memory
    capacity := hc.ne_null
    cpu := Figure.defined (CpuSummary.finite_busy (h.cpu ▸ CpuTotals.counted_ofFields _) hc)
    volumes := ?volumes
    disks := ?disks
    pressure := ?pressure
    records := ?records }
  case volumes =>
    intro v hv figure hfigure
    obtain ⟨input, -, volume, hread, rfl⟩ := hmade.volumes.exists_of_mem hv
    obtain ⟨name, -, rfl⟩ := Option.map_eq_some_iff.1 hread
    exact Figure.defined
      (DeviceRates.finite_figures (DeviceIo.counted_ofFields input) hc _ figure hfigure)
  case disks =>
    intro d hd figure hfigure
    obtain ⟨input, -, rfl⟩ := hmade.disks.exists_of_mem hd
    exact Figure.defined
      (DeviceRates.finite_figures (DeviceIo.counted_ofFields input) hc _ figure hfigure)
  case pressure =>
    intro p hp
    rw [hmade.pressure] at hp
    obtain ⟨input, -, rfl⟩ := Option.map_eq_some_iff.1 hp
    exact PressureSummary.defined_ofFields input _
  case records =>
    intro r hr figure hfigure
    obtain ⟨g, rfl⟩ := exists_joined_of_mem_cut hr
    have hcounted := ProcessTables.counted_rowOf h g.pid
    exact Figure.defined (ProcessTables.finite_recordFigures hcounted hc _ g figure hfigure)

/-- Whatever a sample counts, and whatever it divides by. -/
theorem defined_of_ofText {text : String} {settings : Settings}
    (h : ofText text settings = .ok b) : b.Defined := by
  obtain ⟨s, hs, hb⟩ := ofText_eq_ok h
  obtain ⟨f, -, -, hread⟩ := Sample.readFrom_of_ofText hs
  obtain ⟨-, rfl⟩ := ofSample_eq_ok_iff.1 hb
  exact defined_cut hread _ _

/-- A sample that gives every divisor the chance to be zero or negative. -/
def degenerate : Json :=
  .obj [("DSK", .arr [.obj [("io_ms", .int 7)]]), ("PRG", .arr [.obj [("isproc", .int 1)]]),
    ("PSI", .obj [("cstot", .int 3)]), ("elapsed", .int (-1))]

theorem defined_of_ofText_degenerate :
    ∃ b, ofText degenerate.compact { limits := { disk := 1 }, missing := .empty } = .ok b ∧
      b.disks.length = 1 ∧ b.processes.records.length = 1 ∧ b.pressure.isSome ∧
      b.elapsed = -1 ∧ b.cpu.totals.cores = 0 ∧ b.Defined := by
  have hcheck : (ofText degenerate.compact
      { limits := { disk := 1 }, missing := .empty }).toOption.any (fun b =>
        decide (b.disks.length = 1 ∧ b.processes.records.length = 1 ∧ b.pressure.isSome ∧
          b.elapsed = -1 ∧ b.cpu.totals.cores = 0)) = true := by decide +kernel
  obtain ⟨b, hb, hdisks, hrecords, hpressure, helapsed, hcores⟩ := exists_of_any_ofText hcheck
  exact ⟨b, hb, hdisks, hrecords, hpressure, helapsed, hcores, defined_of_ofText hb⟩

end Board

end ActivityBoard
