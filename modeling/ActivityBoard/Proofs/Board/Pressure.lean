import ActivityBoard.Proofs.Board.Defined
import ActivityBoard.Proofs.Display.Nodes
import ActivityBoard.Proofs.Display.WholePercent
import ActivityBoard.Proofs.Figure.Capped

/-!
Pressure as it is displayed. The ratio is a hundred where the stall is longer than the interval, by
however little, and less than a thousandth everywhere else, so that of all whole percents two are
ever shown.
-/
namespace ActivityBoard

open Binary64 Figure

namespace Binary64

variable {x : Binary64}

/-- What is above one is above it by a unit, which is more than half of one at a hundred. -/
theorem hundred_lt_mul_hundred (hx : x.isFinite = true) (h : 1 < x.value)
    (hf : (x * 100).isFinite = true) : 100 < (x * 100).value := by
  have hgap := add_unit_le value_one.1 hx (by rw [value_one.2]; exact one_pos)
    (by rwa [value_one.2])
  rw [value_one.2, lastPlace_one] at hgap
  rw [mul_of_finite hx value_hundred.1] at hf ⊢
  rw [← value_hundred.2]
  apply lt_value_round value_hundred.1 (by rw [value_hundred.2]; norm_num) _ hf
  rw [lastPlace_hundred, value_hundred.2]
  norm_num at hgap ⊢
  linarith

theorem mul_hundred_le (hx : x.isFinite = true) (h0 : 0 ≤ x.value) (h : x.value ≤ 1) :
    (x * 100).value ≤ 100 := by
  rw [mul_of_finite hx value_hundred.1, ← value_hundred.2]
  apply value_round_le value_hundred.1 <;> rw [value_hundred.2]
  · linarith
  · linarith

theorem value_ten_thousand :
    (10000 : Binary64).isFinite = true ∧ (10000 : Binary64).value = 10000 := by
  have hint := isInt_ofNat (m := 10000) (by decide)
  exact ⟨hint.finite, by exact_mod_cast hint.value_eq⟩

end Binary64

namespace PressureSummary

variable {total more : ℕ} {elapsed : ℤ}

section Ratio

variable (hcount : total ≤ 2 ^ 64) (h0 : 0 < elapsed) (hinterval : elapsed ≤ 2 ^ 63)

include hcount in
theorem within_total : (ofNat total).Within 64 := within_ofNat (k := 64) hcount (by decide)

theorem total_nonneg (total : ℕ) : 0 ≤ (ofNat total).value :=
  value_ofInt_nonneg (Int.natCast_nonneg total)

include h0 hinterval in
theorem between_elapsed : (ofInt elapsed).Between 0 63 := by
  obtain ⟨n, rfl⟩ := Int.eq_ofNat_of_zero_le h0.le
  exact between_ofNat (k := 63) (by omega) (by exact_mod_cast hinterval) (by decide)

include hcount h0 hinterval in
theorem hundred_lt_percent_iff :
    100 < ofNat total / ofInt elapsed * 100 ↔ ofInt elapsed < ofNat total := by
  have htotal := within_total hcount
  have helapsed := between_elapsed h0 hinterval
  have hquotient := htotal.div helapsed.reaches (by decide)
  have hpercent := (hquotient.mul within_hundred (by decide)).finite
  rw [lt_iff_value_lt value_hundred.1 hpercent, lt_iff_value_lt helapsed.finite htotal.finite,
    value_hundred.2]
  constructor
  · intro h
    by_contra hle
    have hone : (ofNat total / ofInt elapsed).value ≤ 1 := by
      rw [div_of_finite htotal.finite helapsed.finite helapsed.pos.ne', ← value_one.2]
      apply value_round_le value_one.1 (div_nonneg (total_nonneg total) helapsed.nonneg)
      rw [value_one.2]
      exact (div_le_one₀ helapsed.pos).2 (not_lt.1 hle)
    have hnonneg : 0 ≤ (ofNat total / ofInt elapsed).value :=
      value_div_nonneg (mul_nonneg (total_nonneg total) helapsed.nonneg)
    exact (mul_hundred_le hquotient.finite hnonneg hone).not_gt h
  · intro h
    have hone := one_lt_div htotal.finite helapsed.finite helapsed.pos h hquotient.finite
    exact hundred_lt_mul_hundred hquotient.finite hone hpercent

include hcount h0 hinterval in
theorem ratio_eq : ratio total elapsed =
    if ofInt elapsed < ofNat total then 100 else ofNat total / (ofInt elapsed * 10000) := by
  rw [ratio, if_neg h0.ne']
  exact if_congr (hundred_lt_percent_iff hcount h0 hinterval) rfl rfl

include h0 hinterval in
theorem scaled_elapsed : (ofInt elapsed * 10000).isFinite = true ∧
    (ofInt elapsed).value * 2 ^ (13 : ℤ) ≤ (ofInt elapsed * 10000).value := by
  have helapsed := between_elapsed h0 hinterval
  have hscale : (10000 : Binary64).Within 14 :=
    within_ofNat (n := 10000) (k := 14) (by norm_num) (by decide)
  have hfinite := (helapsed.toWithin.mul hscale (by decide)).finite
  have hone : 1 ≤ (ofInt elapsed).value := by
    have hreaches := (reaches_iff_of_finite helapsed.finite).1 helapsed.reaches
    rwa [zpow_zero, abs_of_nonneg helapsed.nonneg] at hreaches
  refine ⟨hfinite, ?_⟩
  rw [mul_of_finite helapsed.finite value_ten_thousand.1, value_ten_thousand.2] at hfinite ⊢
  rw [value_round_of_finite (by linarith) hfinite]
  have hclose := abs_nearest_sub_le_mul (q := (ofInt elapsed).value * 10000)
    ((zpow_le_one_of_nonpos₀ one_le_two (by decide)).trans (by linarith))
  have hlow := (abs_le.1 hclose).1
  norm_num at hlow ⊢
  linarith

include h0 hinterval in
theorem scaled_elapsed_pos : 0 < (ofInt elapsed * 10000).value :=
  (mul_pos (between_elapsed h0 hinterval).pos (zpow_pos two_pos _)).trans_le
    (scaled_elapsed h0 hinterval).2

include hcount h0 hinterval in
/-- A stall that fits into the interval comes to next to nothing. -/
theorem within_of_fits (h : ¬ofInt elapsed < ofNat total) :
    (ofNat total / (ofInt elapsed * 10000)).Within (-13) := by
  have htotal := within_total hcount
  have helapsed := between_elapsed h0 hinterval
  have hpos := scaled_elapsed_pos h0 hinterval
  obtain ⟨hscaled, hlow⟩ := scaled_elapsed h0 hinterval
  rw [lt_iff_value_lt helapsed.finite htotal.finite, not_lt] at h
  rw [div_of_finite htotal.finite hscaled hpos.ne']
  apply within_round _ (by decide)
  rw [abs_of_nonneg (div_nonneg (total_nonneg total) hpos.le), div_le_iff₀ hpos]
  calc (ofNat total).value ≤ (ofInt elapsed).value := h
    _ = 2 ^ (-13 : ℤ) * ((ofInt elapsed).value * 2 ^ (13 : ℤ)) := by
      norm_num
      ring
    _ ≤ 2 ^ (-13 : ℤ) * (ofInt elapsed * 10000).value :=
      mul_le_mul_of_nonneg_left hlow (zpow_pos two_pos _).le

include hcount h0 hinterval in
theorem ratio_cases : ofInt elapsed < ofNat total ∧ ratio total elapsed = 100 ∨
    ¬ofInt elapsed < ofNat total ∧
      ratio total elapsed = ofNat total / (ofInt elapsed * 10000) ∧
        (ratio total elapsed).Within (-13) ∧ 0 ≤ (ratio total elapsed).value := by
  rw [ratio_eq hcount h0 hinterval]
  split
  · rename_i h
    exact .inl ⟨h, rfl⟩
  · rename_i h
    have hnonneg := mul_nonneg (total_nonneg total) (scaled_elapsed_pos h0 hinterval).le
    exact .inr ⟨h, rfl, within_of_fits hcount h0 hinterval h, value_div_nonneg hnonneg⟩

theorem lt_thousandth {x : Binary64} (h : x.Within (-13)) : x.value < 1 / 1000 :=
  ((le_abs_self _).trans h.le).trans_lt (by norm_num)

theorem ne_hundred {x : Binary64} (h : x.Within (-13)) : x ≠ 100 := by
  rintro rfl
  have hlt := lt_thousandth h
  rw [value_hundred.2] at hlt
  exact absurd hlt (by norm_num)

include hcount h0 hinterval in
theorem ratio_eq_hundred_iff : ratio total elapsed = 100 ↔ ofInt elapsed < ofNat total := by
  obtain ⟨h, hratio⟩ | ⟨h, -, hlittle, -⟩ := ratio_cases hcount h0 hinterval
  · exact iff_of_true hratio h
  · exact iff_of_false (ne_hundred hlittle) h

include hcount h0 hinterval in
theorem ratio_nonneg : 0 ≤ ratio total elapsed := by
  rw [zero_le_iff]
  obtain ⟨-, hratio⟩ | ⟨-, -, hlittle, hnonneg⟩ := ratio_cases hcount h0 hinterval
  · rw [hratio, value_hundred.2]
    exact .inr ⟨value_hundred.1, by norm_num⟩
  · exact .inr ⟨hlittle.finite, hnonneg⟩

include hcount h0 hinterval in
theorem ratio_mono (hmore : more ≤ 2 ^ 64) (hle : total ≤ more) :
    ratio total elapsed ≤ ratio more elapsed := by
  have htotal := (within_total hcount).finite
  have hgreater := (within_total hmore).finite
  have helapsed := (between_elapsed h0 hinterval).finite
  have hvalue : (ofNat total).value ≤ (ofNat more).value :=
    value_round_mono (by exact_mod_cast hle) htotal hgreater
  obtain ⟨h, hratio⟩ | ⟨-, hratio, hlittle, -⟩ := ratio_cases hcount h0 hinterval
  · have hall : ofInt elapsed < ofNat more := by
      rw [lt_iff_value_lt helapsed htotal] at h
      exact (lt_iff_value_lt helapsed hgreater).2 (h.trans_le hvalue)
    rw [hratio, (ratio_eq_hundred_iff hmore h0 hinterval).2 hall]
    exact (le_iff_value_le value_hundred.1 value_hundred.1).2 le_rfl
  · obtain ⟨-, hratio'⟩ | ⟨-, hratio', hlittle', -⟩ := ratio_cases hmore h0 hinterval
    · rw [hratio', le_iff_value_le hlittle.finite value_hundred.1, value_hundred.2]
      exact (lt_thousandth hlittle).le.trans (by norm_num)
    · rw [le_iff_value_le hlittle.finite hlittle'.finite]
      have hf := hlittle.finite
      have hf' := hlittle'.finite
      rw [hratio] at hf ⊢
      rw [hratio'] at hf' ⊢
      exact value_div_mono htotal hgreater (scaled_elapsed_pos h0 hinterval) hf hf' hvalue

include hcount h0 hinterval in
theorem whole_percent_ratio : Int.repr ⌊(ratio total elapsed).value + 1 / 2⌋ ++ "%" =
    if ratio total elapsed = 100 then "100%" else "0%" := by
  obtain ⟨-, hratio⟩ | ⟨-, -, hlittle, hnonneg⟩ := ratio_cases hcount h0 hinterval
  · have hfloor : ⌊(100 + 1 / 2 : ℚ)⌋ = 100 := by norm_num
    rw [hratio, if_pos rfl, value_hundred.2, hfloor]
    rfl
  · have hfloor : ⌊(ratio total elapsed).value + 1 / 2⌋ = 0 := by
      have hlt := lt_thousandth hlittle
      exact Int.floor_eq_zero_iff.2 ⟨by linarith, by linarith⟩
    rw [if_neg (ne_hundred hlittle), hfloor]
    rfl

end Ratio

theorem exists_of_mem_ratios {f : Fields} {entry : String × Binary64}
    (h : entry ∈ ratios ⟨Pressure.ofFields f, elapsed⟩) :
    Display.classify entry.1 = some .pressure ∧
      ∃ total ≤ 2 ^ 64, entry.2 = ratio total elapsed := by
  have hkinds : ∀ key ∈ Display.pressureKeys, Display.classify key = some .pressure := by decide
  simp only [ratios, List.mem_cons, List.not_mem_nil, or_false] at h
  obtain rfl | rfl | rfl | rfl | rfl := h <;>
    exact ⟨hkinds _ (by simp [Display.pressureKeys]), _, Json.count64_le _, rfl⟩

end PressureSummary

namespace Board

open Display PressureSummary

variable {text : String} {settings : Settings} {b : Board} {p : PressureSummary}

theorem annotated_eq (b : Board) :
    b.annotated.1 = .obj (annotateFields b.context [] b.document).1 := by
  rw [annotated, annotate, toJson_eq, annotateAt_obj]

theorem get?_annotated_pressure (h : ofText text settings = .ok b) (hp : p ∈ b.pressure) :
    Fields.get? (annotateFields b.context [] b.document).1 "PSI" =
      some (.obj (annotateFields b.context [.field "PSI"] p.toFields).1) := by
  obtain ⟨f, -, hf, hmade⟩ := madeFrom_of_ofText h
  rw [get?_annotateFields, hmade.get?_section hf (by decide) (mem_written_pressure hp),
    Option.map_some, annotateField]
  exact congrArg (fun v : Json × List FieldError => some v.1) (annotateAt_obj ..)

theorem get?_annotated_ratio (h : ofText text settings = .ok b) (h0 : 0 < b.elapsed)
    (hp : p ∈ b.pressure) {entry : String × Binary64} (hentry : entry ∈ p.ratios) :
    Fields.get? (annotateFields b.context [.field "PSI"] p.toFields).1 entry.1 =
      some (.str (if entry.2 = 100 then "100%" else "0%")) := by
  obtain ⟨hfinite, hstored, -, -⟩ := (defined_of_ofText h).pressure p hp entry hentry
  obtain ⟨f, -, -, hmade⟩ := madeFrom_of_ofText h
  have hinterval : b.elapsed ≤ 2 ^ 63 := by
    rw [hmade.elapsed]
    exact (abs_le.1 (Json.abs_int64_le _)).2
  rw [hmade.pressure] at hp
  obtain ⟨input, -, rfl⟩ := Option.map_eq_some_iff.1 hp
  obtain ⟨hkind, total, hcount, hratio⟩ := exists_of_mem_ratios hentry
  rw [get?_annotateFields, hstored, Option.map_some, annotateField_of_render? _ _
    (isScalar_ofMetric hfinite) hkind (render?_pressure hfinite _), hratio,
    whole_percent_ratio hcount h0 hinterval]

/-- A ratio of pressure is a hundred where the stall exceeds the interval as a number, and below a
thousandth otherwise; it does not decrease with the stall. So all that is displayed of it is `100%`
or `0%`. -/
theorem pressure_all_or_nothing :
    (∀ (total : ℕ) (elapsed : ℤ), total < 2 ^ 64 → 0 < elapsed → elapsed < 2 ^ 63 →
      (ratio total elapsed = 100 ∨
        (ratio total elapsed).isFinite = true ∧ (ratio total elapsed).value < 1 / 1000) ∧
      0 ≤ ratio total elapsed ∧
      (ratio total elapsed = 100 ↔ ofInt elapsed < ofNat total) ∧
      ∀ more, total ≤ more → more < 2 ^ 64 → ratio total elapsed ≤ ratio more elapsed) ∧
    ∀ (text : String) (settings : Settings) (b : Board), ofText text settings = .ok b →
      0 < b.elapsed → ∀ p ∈ b.pressure, ∃ document output : Fields,
        b.annotated.1 = .obj document ∧ document.get? "PSI" = some (.obj output) ∧
          ∀ entry ∈ p.ratios,
            output.get? entry.1 = some (.str (if entry.2 = 100 then "100%" else "0%")) := by
  constructor
  · intro total elapsed hcount h0 hinterval
    refine ⟨?_, ratio_nonneg hcount.le h0 hinterval.le,
      ratio_eq_hundred_iff hcount.le h0 hinterval.le,
      fun more hle hmore => ratio_mono hcount.le h0 hinterval.le hmore.le hle⟩
    obtain ⟨-, hratio⟩ | ⟨-, -, hlittle, -⟩ := ratio_cases hcount.le h0 hinterval.le
    · exact .inl hratio
    · exact .inr ⟨hlittle.finite, lt_thousandth hlittle⟩
  · intro text settings b h h0 p hp
    exact ⟨_, _, b.annotated_eq, get?_annotated_pressure h hp,
      fun entry hentry => get?_annotated_ratio h h0 hp hentry⟩

def stalling : Json :=
  .obj [("PSI", .obj [("cstot", .int 11), ("iostot", .int 10)]), ("elapsed", .int 10)]

theorem pressure_all_or_nothing_stalling :
    (11 < 2 ^ 64 ∧ (0 : ℤ) < 10 ∧ (10 : ℤ) < 2 ^ 63) ∧ 10 ≤ 11 ∧
    ratio 11 10 = 100 ∧ (ratio 10 10).value < 1 / 1000 ∧ ratio 10 10 ≤ ratio 11 10 ∧
    ∃ b p, ofText stalling.compact {} = .ok b ∧ 0 < b.elapsed ∧ p ∈ b.pressure ∧
      ∃ document output : Fields, b.annotated.1 = .obj document ∧
        document.get? "PSI" = some (.obj output) ∧
          output.get? "cpusome" = some (.str "100%") ∧ output.get? "iosome" = some (.str "0%") := by
  obtain ⟨hnumbers, hshown⟩ := pressure_all_or_nothing
  obtain ⟨-, -, hall, -⟩ := hnumbers 11 10 (by norm_num) (by decide) (by norm_num)
  obtain ⟨hlittle, -, hnot, hmono⟩ := hnumbers 10 10 (by norm_num) (by decide) (by norm_num)
  have heleven : ofInt 10 < ofNat 11 := by decide +kernel
  have hten : ¬ofInt 10 < ofNat 10 := by decide +kernel
  have hcheck : (ofText stalling.compact {}).toOption.any (fun b => decide (0 < b.elapsed ∧
      b.pressure.any (fun p => decide (p.elapsed = 10 ∧ p.pressure.cpuSome.total = 11 ∧
        p.pressure.ioSome.total = 10)) = true)) = true := by decide +kernel
  obtain ⟨b, hb, helapsed, hpressure⟩ := exists_of_any_ofText hcheck
  obtain ⟨p, hp, htotals⟩ := (Option.any_eq_true ..).1 hpressure
  obtain ⟨hinterval, hcpu, hio⟩ := of_decide_eq_true htotals
  obtain ⟨document, output, hdocument, houtput, hentries⟩ := hshown _ _ b hb helapsed p hp
  have hfull := hentries ("cpusome", ratio 11 10) (by simp [ratios, hinterval, hcpu])
  have hnone := hentries ("iosome", ratio 10 10) (by simp [ratios, hinterval, hio])
  rw [if_pos (hall.2 heleven)] at hfull
  rw [if_neg fun h => hten (hnot.1 h)] at hnone
  exact ⟨⟨by norm_num, by decide, by norm_num⟩, by decide, hall.2 heleven,
    (hlittle.resolve_left fun h => hten (hnot.1 h)).2, hmono 11 (by decide) (by norm_num),
    b, p, hb, helapsed, hp, document, output, hdocument, houtput, hfull, hnone⟩

end Board

end ActivityBoard
