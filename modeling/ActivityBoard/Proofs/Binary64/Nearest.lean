import ActivityBoard.Proofs.Binary64.Ties

namespace ActivityBoard.Binary64

open Json

variable {x y : Binary64} {places : ℕ}

theorem exists_units_shown (hx : x.isFinite = true) (hplaces : places ≤ 22) :
    ∃ units : ℕ, x.toFixed places = Decimal.placedText (decide (x.value < 0)) places units ∧
      |(units : ℚ) - |x.value| * 10 ^ places| ≤ 1 / 2 := by
  have hfinite := finite_unsignedZero hx
  rw [toFixed_eq hx, ← value_unsignedZero hx]
  split
  · rename_i htie
    obtain ⟨k, h⟩ := isTie_iff.1 (Bool.and_eq_true_iff.1 htie).2
    obtain ⟨hlow, hhigh⟩ := h.nudged_bounds hfinite hplaces
    refine ⟨_, h.nearestPlaces_nudged hfinite hplaces, ?_⟩
    rw [h]
    exact abs_nearestEven_sub_half_le hlow hhigh
  · refine ⟨_, ?_, abs_nearestEven_sub_le (by positivity)⟩
    rw [nearestPlaces_eq, negative_unsignedZero_eq hx, value_unsignedZero hx]

theorem exists_numeral_shown (hx : x.isFinite = true) (hplaces : places ≤ 22) :
    ∃ (n : Numeral) (units : ℤ), n.WritesPlaces places (x.toFixed places) ∧
      (n.negative = true ↔ x.value < 0) ∧ n.value * 10 ^ places = units ∧
        |units - x.value * 10 ^ places| ≤ 1 / 2 := by
  obtain ⟨units, hshown, hclose⟩ := exists_units_shown hx hplaces
  have hscale : (10 ^ places : ℚ) ≠ 0 := by positivity
  have hwrites := Numeral.writesPlaces_ofPlaces (decide (x.value < 0)) places units
  rw [← hshown] at hwrites
  obtain hneg | hpos := lt_or_ge x.value 0
  · refine ⟨_, -units, hwrites, decide_eq_true_iff, ?_, ?_⟩
    · rw [Numeral.value_ofPlaces, if_pos (decide_eq_true hneg), neg_mul, div_mul_cancel₀ _ hscale]
      push_cast
      rfl
    · have hneg_sub : (((-units : ℤ) : ℚ) - x.value * 10 ^ places) =
          -(units - -x.value * 10 ^ places) := by
        push_cast
        ring
      rwa [hneg_sub, abs_neg, ← abs_of_neg hneg]
  · refine ⟨_, units, hwrites, decide_eq_true_iff, ?_, ?_⟩
    · rw [Numeral.value_ofPlaces, if_neg (by simpa using hpos), div_mul_cancel₀ _ hscale]
      rfl
    · rwa [abs_of_nonneg hpos] at hclose

theorem toFixed_congr (hx : x.isFinite = true) (hy : y.isFinite = true)
    (h : x.value = y.value) (places : ℕ) : x.toFixed places = y.toFixed places := by
  rw [toFixed_eq hx, toFixed_eq hy, unsignedZero_congr hx hy h]

/-- A finite number is shown in digits by a multiple of `10^-places` at most half of one away, and
greater numbers by multiples that are not smaller. -/
theorem shown_nearest_and_monotone (hplaces : places ≤ 22) :
    (∀ x : Binary64, x.isFinite = true → ∃ n : Numeral, n.WritesPlaces places (x.toFixed places) ∧
      (n.negative = true ↔ x.value < 0) ∧ |n.value - x.value| ≤ 1 / 2 / 10 ^ places) ∧
    ∀ x y : Binary64, x.isFinite = true → y.isFinite = true → x ≤ y → ∀ m n : Numeral,
      m.WritesPlaces places (x.toFixed places) → n.WritesPlaces places (y.toFixed places) →
        m.value ≤ n.value := by
  have hscale : (0 : ℚ) < 10 ^ places := by positivity
  constructor
  · intro x hx
    obtain ⟨n, units, hn, hsign, hunits, hclose⟩ := exists_numeral_shown hx hplaces
    refine ⟨n, hn, hsign, ?_⟩
    rw [← hunits, ← sub_mul, abs_mul, abs_of_pos hscale] at hclose
    exact (le_div_iff₀ hscale).2 hclose
  · intro x y hx hy hle m n hm hn
    obtain heq | hlt := ((le_iff_value_le hx hy).1 hle).eq_or_lt
    · rw [toFixed_congr hx hy heq] at hm
      rw [hm.unique hn]
    · obtain ⟨m', a, hm', -, ha, haclose⟩ := exists_numeral_shown hx hplaces
      obtain ⟨n', b, hn', -, hb, hbclose⟩ := exists_numeral_shown hy hplaces
      have hab := le_of_abs_sub_le_half haclose hbclose (mul_lt_mul_of_pos_right hlt hscale)
      apply le_of_mul_le_mul_right _ hscale
      rw [hm.unique hm', hn.unique hn', ha, hb]
      exact_mod_cast hab

theorem shown_nearest_and_monotone_tenths : 22 ≤ 22 ∧
    ((-0.3 : Binary64).isFinite = true ∧ (0.1 : Binary64).isFinite = true ∧
      (-0.3 : Binary64) ≤ 0.1) ∧
    (∃ n : Numeral, n.WritesPlaces 22 ((-0.3 : Binary64).toFixed 22) ∧
      (n.negative = true ↔ (-0.3 : Binary64).value < 0) ∧
        |n.value - (-0.3 : Binary64).value| ≤ 1 / 2 / 10 ^ 22) ∧
    ∀ m n : Numeral, m.WritesPlaces 22 ((-0.3 : Binary64).toFixed 22) →
      n.WritesPlaces 22 ((0.1 : Binary64).toFixed 22) → m.value ≤ n.value := by
  have hfinite : (-0.3 : Binary64).isFinite = true := by decide +kernel
  have hle : (-0.3 : Binary64) ≤ 0.1 := by decide +kernel
  have hplaces : 22 ≤ 22 := le_rfl
  obtain ⟨hnearest, hmono⟩ := shown_nearest_and_monotone hplaces
  exact ⟨hplaces, ⟨hfinite, within_tenth.finite, hle⟩, hnearest _ hfinite,
    hmono _ _ hfinite within_tenth.finite hle⟩

end ActivityBoard.Binary64
