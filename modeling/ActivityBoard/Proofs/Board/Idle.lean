import ActivityBoard.Proofs.Board.Defined
import ActivityBoard.Proofs.Figure.Capped

/-!
How busy an idle processor is shown. Below `2^53` ticks none is lost to rounding, so that what is
left without the idle and the waiting ones is a count, and nothing where no other ticks were counted.
The tick that stands in for a sample without any is neither idle nor waiting, and counts as work.
-/
namespace ActivityBoard

open Binary64 Figure Json

namespace CpuTimes

/-- The ticks that were neither idle nor waiting. -/
def working (t : CpuTimes) : ℕ :=
  t.system + t.user + t.nice + t.interrupt + t.softInterrupt + t.steal

theorem total_eq (t : CpuTimes) : t.total = t.working + t.idle + t.wait := by
  rw [total, working]
  omega

end CpuTimes

namespace CpuSummary

variable {cpu : CpuTotals} {c : Capacity}

/-- The ticks of which the share is shown. -/
def workingTicks (cpu : CpuTotals) : ℕ := if cpu.times.total = 0 then 1 else cpu.times.working

theorem isInt_workingTicks (h : cpu.times.total < 2 ^ 53) :
    (Capacity.ticks cpu - ofNat cpu.times.idle - ofNat cpu.times.wait).IsInt
      (workingTicks cpu) := by
  have htotal := cpu.times.total_eq
  have hticks : (Capacity.ticks cpu).IsInt (max cpu.times.total 1 : ℕ) := by
    rw [Capacity.ticks_eq]
    exact isInt_ofNat (by rw [leadingBit]; omega)
  have hidle : (ofNat cpu.times.idle).IsInt cpu.times.idle :=
    isInt_ofNat (by rw [leadingBit]; omega)
  have hwait : (ofNat cpu.times.wait).IsInt cpu.times.wait :=
    isInt_ofNat (by rw [leadingBit]; omega)
  have hrest : ((max cpu.times.total 1 : ℕ) - cpu.times.idle - cpu.times.wait : ℤ) =
      workingTicks cpu := by
    rw [workingTicks]
    split <;> omega
  have hexact {n : ℤ} (hlow : 0 ≤ n) (hhigh : n < 2 ^ 53) : Representable n := by
    apply representable_of_abs_lt
    rw [abs_of_nonneg hlow]
    exact hhigh
  rw [← hrest]
  apply (hticks.sub hidle _).sub hwait
  · exact hexact (by omega) (by omega)
  · exact hexact (by omega) (by omega)

section Share

variable (h : cpu.times.total < 2 ^ 53) (hcounted : cpu.Counted) (hc : c.Bounded)

include h hcounted hc

omit h in
theorem finite_quotient : ((Capacity.ticks cpu - ofNat cpu.times.idle - ofNat cpu.times.wait) /
    c.coreTicks).isFinite = true :=
  isFinite_of_mul value_hundred.1 (finite_busy hcounted hc)

theorem value_busy_nonneg : 0 ≤ (ofTotals cpu c).busy.value.value := by
  have hticks := isInt_workingTicks h
  have hquotient := value_div_nonneg (x := Capacity.ticks cpu - ofNat cpu.times.idle -
    ofNat cpu.times.wait) (y := c.coreTicks) (mul_nonneg (by rw [hticks.value_eq]; positivity)
      hc.coreTicks.nonneg)
  rw [ofTotals, mul_of_finite (finite_quotient hcounted hc) value_hundred.1, value_hundred.2]
  exact value_round_nonneg (mul_nonneg hquotient (by norm_num)) _

theorem value_busy_of_workingTicks (hzero : workingTicks cpu = 0) :
    (ofTotals cpu c).busy.value.value = 0 := by
  have hticks := isInt_workingTicks h
  have hround (s : Bool) : (round 0 s).value = 0 :=
    (value_round_nonpos le_rfl s).antisymm (value_round_nonneg le_rfl s)
  rw [hzero, Nat.cast_zero] at hticks
  rw [ofTotals, mul_of_finite (finite_quotient hcounted hc) value_hundred.1,
    div_of_finite hticks.finite hc.coreTicks.finite hc.coreTicks.pos.ne', hticks.value_eq,
    Int.cast_zero, zero_div, hround, zero_mul, hround]

end Share

end CpuSummary

namespace Sample

def cpuSummary (s : Sample) : CpuSummary := .ofTotals s.cpu (.ofSample s.cpu s.memory)

/-- The sample with one tick of system time. -/
def withTick (s : Sample) : Sample :=
  { s with cpu := { s.cpu with times := { s.cpu.times with system := 1 } } }

variable {s : Sample} {text : String}

theorem busy_withTick (h : s.cpu.times.total = 0) :
    s.withTick.cpuSummary.busy = s.cpuSummary.busy := by
  have htotal : s.withTick.cpu.times.total = 1 := by
    have hticks := s.cpu.times.total_eq
    rw [CpuTimes.working] at hticks
    rw [CpuTimes.total, withTick]
    dsimp only
    omega
  have hticks : Capacity.ticks s.withTick.cpu = Capacity.ticks s.cpu := by
    rw [Capacity.ticks_eq, Capacity.ticks_eq, htotal, h]
    rfl
  have hcore : (Capacity.ofSample s.withTick.cpu s.withTick.memory).coreTicks =
      (Capacity.ofSample s.cpu s.memory).coreTicks :=
    congrArg (· / ofNat (max s.cpu.cores 1)) hticks
  rw [cpuSummary, cpuSummary, CpuSummary.ofTotals, CpuSummary.ofTotals, hcore, hticks]
  rfl

theorem cpu_of_ofSample {settings : Settings} {b : Board} (h : Board.ofSample s settings = .ok b) :
    b.cpu = s.cpuSummary := by
  obtain ⟨-, rfl⟩ := Board.ofSample_eq_ok_iff.1 h
  rfl

/-- Below `2^53` ticks a processor is shown busy without a sign, and not at all where all of its
ticks were idle or waiting; a sample without ticks is shown as if it had worked for one. -/
theorem idle_not_shown_busy (h : Sample.ofText text = .ok s)
    (htotal : s.cpu.times.total < 2 ^ 53) :
    (∀ settings b, Board.ofSample s settings = .ok b → b.cpu = s.cpuSummary) ∧
    (∃ n : Numeral, n.WritesPlaces 1 s.cpuSummary.busy.text ∧ n.negative = false) ∧
    ofText? s.cpuSummary.busy.text.toList = some s.cpuSummary.busy.reading ∧
    0 ≤ s.cpuSummary.busy.reading ∧
    (s.cpu.times.working = 0 → s.cpu.times.total ≠ 0 → s.cpuSummary.busy.text = "0.0") ∧
    (s.cpu.times.total = 0 → s.cpuSummary.busy = s.withTick.cpuSummary.busy) := by
  obtain ⟨f, -, -, hread⟩ := Sample.readFrom_of_ofText h
  have hcounted : s.cpu.Counted := hread.cpu ▸ CpuTotals.counted_ofFields _
  have hc := Board.bounded_capacity hread
  have hfinite : s.cpuSummary.busy.value.isFinite = true := CpuSummary.finite_busy hcounted hc
  have hnonneg : 0 ≤ s.cpuSummary.busy.value.value :=
    CpuSummary.value_busy_nonneg htotal hcounted hc
  have hplaces : 1 ≤ 22 := by decide
  refine ⟨fun settings b => cpu_of_ofSample, ?_, ofText?_text _ hplaces, ?_, ?_,
    fun hzero => (busy_withTick hzero).symm⟩
  · obtain ⟨n, -, hn, hsign, -⟩ := exists_numeral_shown hfinite hplaces
    exact ⟨n, hn, Bool.eq_false_iff.2 fun hs => (hsign.1 hs).not_ge hnonneg⟩
  · have hmono := reading_mono hplaces (zero_le_iff.2 (.inr ⟨hfinite, hnonneg⟩))
    rw [reading_zero] at hmono
    exact hmono
  · intro hworking hne
    have hticks : CpuSummary.workingTicks s.cpu = 0 := by
      rw [CpuSummary.workingTicks, if_neg hne, hworking]
    have hvalue : s.cpuSummary.busy.value.value = 0 :=
      CpuSummary.value_busy_of_workingTicks htotal hcounted hc hticks
    have hzero : (0 : Binary64).isFinite = true ∧ (0 : Binary64).toFixed 1 = "0.0" := by
      decide +kernel
    rw [← hzero.2]
    exact toFixed_congr hfinite hzero.1 (hvalue.trans value_literal_zero.symm) 1

def idling : Json :=
  .obj [("CPU", .obj [("hertz", .int 100), ("itime", .int 7), ("nrcpu", .int 2),
    ("wtime", .int 2)])]

theorem idle_not_shown_busy_idling : ∃ s, Sample.ofText idling.compact = .ok s ∧
    s.cpu.times.total < 2 ^ 53 ∧ s.cpu.times.working = 0 ∧ s.cpu.times.total ≠ 0 ∧
      0 ≤ s.cpuSummary.busy.reading ∧ s.cpuSummary.busy.text = "0.0" := by
  have hcheck : (Sample.ofText idling.compact).toOption.any (fun s =>
      decide (s.cpu.times.total < 2 ^ 53 ∧ s.cpu.times.working = 0 ∧ s.cpu.times.total ≠ 0)) =
        true := by decide +kernel
  obtain ⟨s, hs, htotal, hworking, hne⟩ := exists_of_any hcheck
  obtain ⟨-, -, -, hnonneg, hidle, -⟩ := idle_not_shown_busy hs htotal
  exact ⟨s, hs, htotal, hworking, hne, hnonneg, hidle hworking hne⟩

/-- An empty object counts no tick, and is shown as busy as can be. -/
theorem empty_shown_busy : ∃ s, Sample.ofText "\x7b\x7d" = .ok s ∧
    s.cpu.times.total < 2 ^ 53 ∧ s.cpu.times.working = 0 ∧
      s.cpuSummary.busy.text = "100.0" ∧ ¬s.cpuSummary.busy.text = "0.0" := by
  have hcheck : (Sample.ofText "\x7b\x7d").toOption.any (fun s =>
      decide (s.cpu.times.total < 2 ^ 53 ∧ s.cpu.times.working = 0 ∧
        s.cpuSummary.busy.text = "100.0" ∧ ¬s.cpuSummary.busy.text = "0.0")) = true := by
    decide +kernel
  exact exists_of_any hcheck

end Sample

end ActivityBoard
