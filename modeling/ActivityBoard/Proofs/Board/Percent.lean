import ActivityBoard.Proofs.Binary64.Nearest
import ActivityBoard.Proofs.Board.Bounds

/-!
The percentage that a part is of a whole. Part and whole, their product with a hundred and the
quotient are each rounded, and the four roundings together never carry what is shown of a part above
a hundred.
-/
namespace ActivityBoard

open Binary64 Figure Json

variable {x : Binary64} {part whole : ℤ} {places units : ℕ}

theorem Figure.reading_placedText (h : x.toFixed places = Decimal.placedText false places units) :
    Figure.reading ⟨x, places⟩ = Binary64.round (units / 10 ^ places) false := by
  have hwrites := Numeral.writesPlaces_ofPlaces false places units
  rw [reading, text, h, hwrites.toList_eq, hwrites.wellFormed.spells.ofText?_signed,
    Option.getD_some, Numeral.number, Numeral.decimal_ofPlaces, ofDecimal_eq_round, zpow_neg,
    zpow_natCast, ← div_eq_mul_inv]
  rfl

theorem Figure.cappedPercent_of_units (h : x.toFixed 1 = Decimal.placedText false 1 units)
    (hunits : units ≤ 1000) : cappedPercent x 1 = ⟨x, 1⟩ := by
  have hle : (units / 10 ^ 1 : ℚ) ≤ 100 := by
    have hcast : (units : ℚ) ≤ 1000 := by exact_mod_cast hunits
    linarith
  have hnonneg : (0 : ℚ) ≤ units / 10 ^ 1 := by positivity
  have hwithin : (Binary64.round (units / 10 ^ 1) false).Within 7 := by
    apply within_round _ (by decide)
    rw [abs_of_nonneg hnonneg]
    exact hle.trans (by norm_num)
  rw [cappedPercent, if_neg]
  rw [reading_placedText h, lt_iff_value_lt value_hundred.1 hwithin.finite, not_lt]
  rw [← value_hundred.2] at hle
  exact value_round_le value_hundred.1 hnonneg hle false

theorem within_ofInt_fits (hpart : 0 ≤ part) (hfits : part ≤ 9223372036854775807) :
    (ofInt part).Within 65 := by
  have hwithin : (ofInt part).Within (63 : ℕ) :=
    within_ofInt (by rw [abs_of_nonneg hpart]; omega) (by decide)
  exact hwithin.mono (by decide)

theorem value_ofInt_of_pos (hpos : 0 < part) (hfits : part ≤ 9223372036854775807) :
    (ofInt part).value = nearest part ∧ 1 ≤ (ofInt part).value := by
  have hcast : (0 : ℚ) < part := by exact_mod_cast hpos
  have hpow : (part : ℚ) ≤ 2 ^ (63 : ℤ) := by
    have hpart : (part : ℚ) ≤ 9223372036854775807 := by exact_mod_cast hfits
    exact hpart.trans (by norm_num)
  have hvalue : (ofInt part).value = nearest part :=
    value_round_of_pos hcast (hpow.trans (zpow_le_zpow_right₀ one_le_two (by decide))) false
  refine ⟨hvalue, ?_⟩
  rw [hvalue]
  exact le_nearest (k := 0) hcast (by exact_mod_cast hpos) (by decide)

theorem value_ofInt_zero : (ofInt 0).value = 0 := value_literal_zero

theorem value_ofInt_mono (hpart : 0 ≤ part) (hle : part ≤ whole)
    (hfits : whole ≤ 9223372036854775807) : (ofInt part).value ≤ (ofInt whole).value := by
  obtain rfl | hpos := hpart.eq_or_lt
  · rw [value_ofInt_zero]
    exact value_ofInt_nonneg hle
  · rw [(value_ofInt_of_pos hpos (hle.trans hfits)).1,
      (value_ofInt_of_pos (hpos.trans_le hle) hfits).1]
    exact nearest_mono (by exact_mod_cast hpos) (by exact_mod_cast hle)

/-- The product with a hundred gains a part in `2^53` at most. -/
theorem value_mul_hundred_le (hpart : 0 ≤ part) (hfits : part ≤ 9223372036854775807) :
    (ofInt part * 100).value ≤ (ofInt part).value * (100 * (1 + 2 ^ (-53 : ℤ))) := by
  obtain rfl | hpos := hpart.eq_or_lt
  · rw [mul_of_finite (by decide +kernel) value_hundred.1, value_ofInt_zero, zero_mul, zero_mul]
    exact value_round_nonpos le_rfl _
  · have hone := (value_ofInt_of_pos hpos hfits).2
    have hproduct : 1 ≤ (ofInt part).value * 100 := by linarith
    have hclose := abs_nearest_sub_le_mul ((zpow_le_one_of_nonpos₀ one_le_two (by decide)).trans
      hproduct)
    rw [mul_of_finite (within_ofInt_fits hpart hfits).finite value_hundred.1, value_hundred.2]
    calc _ ≤ nearest ((ofInt part).value * 100) := value_round_le_nearest (by linarith) _
      _ ≤ (ofInt part).value * 100 + (ofInt part).value * 100 * 2 ^ (-53 : ℤ) := by
        linarith [(abs_le.1 hclose).2]
      _ = (ofInt part).value * (100 * (1 + 2 ^ (-53 : ℤ))) := by ring

/-- A number just above a hundred, to which the roundings do not carry. -/
theorem value_above_hundred : (100.03125 : Binary64).isFinite = true ∧
    (100.03125 : Binary64).value = 3201 / 32 := by
  decide +kernel

theorem percent_bounds (hpart : 0 ≤ part) (hle : part ≤ whole) (hwhole : 0 < whole)
    (hfits : whole ≤ 9223372036854775807) :
    (ofInt part * 100 / ofInt whole).isFinite = true ∧
      0 ≤ (ofInt part * 100 / ofInt whole).value ∧
        (ofInt part * 100 / ofInt whole).value ≤ 3201 / 32 := by
  have hpartWithin := within_ofInt_fits hpart (hle.trans hfits)
  have hmul := (hpartWithin.mul within_hundred (by decide)).finite
  have hmulNonneg : 0 ≤ (ofInt part * 100).value := by
    rw [mul_of_finite hpartWithin.finite value_hundred.1, value_hundred.2]
    exact value_round_nonneg (mul_nonneg (value_ofInt_nonneg hpart) (by norm_num)) _
  have hpos : 0 < (ofInt whole).value :=
    zero_lt_one.trans_le (value_ofInt_of_pos hwhole hfits).2
  have hquotient : (ofInt part * 100).value / (ofInt whole).value ≤ 3201 / 32 := by
    rw [div_le_iff₀ hpos]
    calc (ofInt part * 100).value ≤ (ofInt part).value * (100 * (1 + 2 ^ (-53 : ℤ))) :=
          value_mul_hundred_le hpart (hle.trans hfits)
      _ ≤ (ofInt whole).value * (100 * (1 + 2 ^ (-53 : ℤ))) :=
          mul_le_mul_of_nonneg_right (value_ofInt_mono hpart hle hfits) (by norm_num)
      _ ≤ 3201 / 32 * (ofInt whole).value := by
        norm_num
        linarith
  have hreaches : (ofInt whole).Reaches (-10) := (reaches_ofInt hwhole.ne').mono (by decide)
  refine ⟨(ProcessTables.within_percent hpartWithin hreaches).finite, ?_, ?_⟩
  · exact value_div_nonneg (mul_nonneg hmulNonneg hpos.le)
  · have hwholeFinite := (within_ofInt_fits hwhole.le hfits).finite
    rw [div_of_finite hmul hwholeFinite hpos.ne', ← value_above_hundred.2]
    rw [← value_above_hundred.2] at hquotient
    exact value_round_le value_above_hundred.1 (div_nonneg hmulNonneg hpos.le) hquotient _

namespace ProcessTables

theorem share_zero (part : Binary64) : share part (ofInt 0) = ⟨0, 1⟩ := by
  rw [share, if_pos (by decide +kernel)]

theorem text_zero : Figure.text ⟨0, 1⟩ = Decimal.placedText false 1 0 := by decide +kernel

theorem share_shown {part whole : ℤ} (hpart : 0 ≤ part) (hle : part ≤ whole)
    (hfits : whole ≤ 9223372036854775807) :
    (share (ofInt part) (ofInt whole)).places = 1 ∧ ∃ units ≤ 1000,
      (share (ofInt part) (ofInt whole)).text = Decimal.placedText false 1 units := by
  obtain rfl | hwhole := (hpart.trans hle).eq_or_lt
  · rw [share_zero]
    exact ⟨rfl, 0, by decide, text_zero⟩
  · obtain ⟨hfinite, hnonneg, hhigh⟩ := percent_bounds hpart hle hwhole hfits
    have hplaces : 1 ≤ 22 := by decide
    obtain ⟨units, hshown, hclose⟩ := exists_units_shown hfinite hplaces
    have hunits : units ≤ 1000 := by
      have hlt : (units : ℚ) < 1001 := by
        rw [abs_of_nonneg hnonneg] at hclose
        linarith [(abs_le.1 hclose).2]
      exact Nat.lt_succ_iff.1 (by exact_mod_cast hlt)
    rw [decide_eq_false hnonneg.not_gt] at hshown
    rw [share, if_neg (by rw [(reaches_ofInt hwhole.ne').isZero_eq]; decide),
      cappedPercent_of_units hshown hunits]
    exact ⟨rfl, units, hunits, hshown⟩

end ProcessTables

end ActivityBoard
