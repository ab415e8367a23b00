import ActivityBoard.Proofs.Binary64.Nudge

/-!
Numbers half way between two neighbouring multiples of `10^-places`. The step moves such a number
above the half, but not past the next multiple, as long as it is below a bound that depends on
`places`; at the bound and above the step is lost, and the even multiple is shown.
-/
namespace ActivityBoard.Binary64

open Json

variable {x : Binary64} {q : ℚ} {places k : ℕ}

section Half

theorem floor_half (k : ℕ) : (k + 1 / 2 : ℚ).floor = k := by
  refine (Int.floor_eq_iff (R := ℚ)).2 ⟨?_, ?_⟩ <;> push_cast <;> linarith

theorem nearestEven_half (k : ℕ) : nearestEven (k + 1 / 2) = k + k % 2 := by
  have hrest : (k + 1 / 2 - k : ℚ) = 1 / 2 := by ring
  rw [nearestEven, floor_half, Int.toNat_natCast]
  simp only [hrest, lt_irrefl, if_false]

theorem nearest_half (h : (k + 1 / 2 : ℚ) < 2 ^ (52 : ℤ)) : nearest (k + 1 / 2) = k + 1 / 2 := by
  have hpos : (0 : ℚ) < k + 1 / 2 := by positivity
  have hplace : lastPlace (k + 1 / 2) ≤ -1 := by
    have hlog := (log2_lt_iff hpos).2 h
    rw [lastPlace]
    omega
  apply nearest_eq_of_place hpos hplace (n := 2 * k + 1)
  push_cast
  ring

theorem nearestEven_above_half (hlow : k + 1 / 2 < q) (hhigh : q ≤ k + 3 / 4) :
    nearestEven q = k + 1 := by
  have hfloor : q.floor = k := by
    refine (Int.floor_eq_iff (R := ℚ)).2 ⟨?_, ?_⟩ <;> push_cast <;> linarith
  have hrest : 1 / 2 < q - k := by linarith
  rw [nearestEven, hfloor, Int.toNat_natCast]
  simp only [hrest.not_gt, hrest, if_false, if_true]

theorem abs_nearestEven_sub_half_le (hlow : k + 1 / 2 ≤ q) (hhigh : q ≤ k + 3 / 4) :
    |(nearestEven q : ℚ) - (k + 1 / 2)| ≤ 1 / 2 := by
  have hge : (k : ℚ) ≤ nearestEven q := by exact_mod_cast le_nearestEven (by linarith)
  have hle : (nearestEven q : ℚ) ≤ k + 1 := by
    exact_mod_cast nearestEven_le (n := k + 1) (by push_cast; linarith)
  rw [abs_le]
  constructor <;> linarith

end Half

theorem inPlaces_eq (x : Binary64) (places : ℕ) : x.inPlaces places = |x.value| * 10 ^ places := by
  have hscale : ((Decimal.scale places : ℕ) : ℚ) = 10 ^ places := by simp [Decimal.scale]
  rw [inPlaces, Metric.abs_value_abs, hscale]

theorem nearestPlaces_eq (x : Binary64) (places : ℕ) : x.nearestPlaces places =
    Decimal.placedText x.negative places (nearestEven (|x.value| * 10 ^ places)) := by
  rw [← inPlaces_eq]
  rfl

/-- The magnitude lies half way between `k` and `k + 1` units of `10^-places`. -/
def HalfWay (x : Binary64) (places k : ℕ) : Prop := |x.value| * 10 ^ places = k + 1 / 2

theorem isTie_iff : x.isTie places = true ↔ ∃ k, x.HalfWay places k := by
  have hnonneg : 0 ≤ |x.value| * 10 ^ places := by positivity
  rw [isTie, inPlaces_eq, decide_eq_true_iff]
  constructor
  · intro h
    refine ⟨(|x.value| * 10 ^ places).floor.toNat, ?_⟩
    have hfloor : (((|x.value| * 10 ^ places).floor.toNat : ℕ) : ℚ) =
        (|x.value| * 10 ^ places).floor := by
      exact_mod_cast Int.toNat_of_nonneg (Int.floor_nonneg.2 hnonneg)
    rw [HalfWay, hfloor]
    linarith
  · rintro ⟨k, h⟩
    rw [h, floor_half]
    push_cast
    ring

theorem step_mul_le (h : places ≤ 22) : step places * 10 ^ places ≤ 1 / 8 := by
  have hclose := (abs_le.1 (step_close h)).2
  rw [pow_succ] at hclose
  norm_num at hclose
  linarith

namespace HalfWay

variable (h : x.HalfWay places k) (hx : x.isFinite = true) (hplaces : places ≤ 22)

include h

theorem value_ne_zero : x.value ≠ 0 := by
  intro hzero
  have hk : (0 : ℚ) ≤ k := Nat.cast_nonneg k
  rw [HalfWay, hzero, abs_zero, zero_mul] at h
  linarith

theorem lt_of_abs_value_lt (hplaces : places ≤ 22)
    (hbound : |x.value| < 2 ^ (53 + stepPlace places)) : (k + 1 / 2 : ℚ) < 2 ^ (52 : ℤ) := by
  have hten : (0 : ℚ) < 10 ^ places := by positivity
  have hstep := mul_lt_mul_of_pos_right (step_bounds hplaces).1 hten
  have hle := step_mul_le hplaces
  calc (k + 1 / 2 : ℚ) = |x.value| * 10 ^ places := h.symm
    _ < 2 ^ (53 + stepPlace places) * 10 ^ places := mul_lt_mul_of_pos_right hbound hten
    _ = 2 ^ (53 : ℤ) * (2 ^ stepPlace places * 10 ^ places) := by
      rw [zpow_add₀ two_ne_zero, mul_assoc]
    _ ≤ 2 ^ (53 : ℤ) * (1 / 4) := by
      apply mul_le_mul_of_nonneg_left _ (zpow_pos two_pos _).le
      linarith
    _ < 2 ^ (52 : ℤ) := by norm_num

include hx

theorem abs_value_lt : |x.value| < 2 ^ (52 : ℤ) := by
  obtain _ | _ | ⟨s, m, e, hc⟩ := x
  · cases hx
  · cases hx
  rw [HalfWay, abs_value_finite] at h
  rw [abs_value_finite]
  obtain he | he := le_or_gt 0 e
  · -- A multiple of one is no half of an odd number.
    obtain ⟨d, rfl⟩ := Int.eq_ofNat_of_zero_le he
    have hodd : 2 * (m * 2 ^ d * 10 ^ places) = 2 * k + 1 := by
      rw [zpow_natCast] at h
      have hcast : (2 * (m * 2 ^ d * 10 ^ places) : ℚ) = 2 * k + 1 := by linarith
      exact_mod_cast hcast
    omega
  · calc (m * 2 ^ e : ℚ) < (2 * leadingBit : ℕ) * 2 ^ e :=
          mul_lt_mul_of_pos_right (by exact_mod_cast hc.1) (zpow_pos two_pos e)
      _ = 2 ^ (53 + e) := by
          rw [zpow_add₀ two_ne_zero]
          norm_num
      _ ≤ 2 ^ (52 : ℤ) := zpow_le_zpow_right₀ one_le_two (by omega)

include hplaces

theorem add_step_le : |x.value| + step places ≤ 2 ^ (1023 : ℤ) := by
  have hlt := (h.abs_value_lt hx).le
  have hstep : step places ≤ 1 := by
    have hone : (1 : ℚ) ≤ 10 ^ places := one_le_pow₀ (by norm_num)
    have hmul := le_mul_of_one_le_right (step_pos hplaces).le hone
    linarith [step_mul_le hplaces]
  calc |x.value| + step places ≤ 2 ^ (52 : ℤ) + 2 ^ (52 : ℤ) :=
        add_le_add hlt (hstep.trans (one_le_zpow₀ one_le_two (by decide)))
    _ = 2 ^ (53 : ℤ) := by norm_num
    _ ≤ 2 ^ (1023 : ℤ) := zpow_le_zpow_right₀ one_le_two (by decide)

/-- The step does not carry past three quarters of the way. -/
theorem nudged_bounds : k + 1 / 2 ≤ nearest (|x.value| + step places) * 10 ^ places ∧
    nearest (|x.value| + step places) * 10 ^ places ≤ k + 3 / 4 := by
  obtain ⟨hlow, hhigh⟩ := nearest_add_bounds hx h.value_ne_zero (step_pos hplaces).le
  have hscale : (0 : ℚ) ≤ 10 ^ places := by positivity
  have hlow' := mul_le_mul_of_nonneg_right hlow hscale
  have hhigh' := mul_le_mul_of_nonneg_right hhigh hscale
  have hstep := step_mul_le hplaces
  rw [h] at hlow'
  rw [add_mul, h, mul_assoc] at hhigh'
  exact ⟨hlow', by linarith⟩

theorem nudged_above (hbound : |x.value| < 2 ^ (53 + stepPlace places)) :
    k + 1 / 2 < nearest (|x.value| + step places) * 10 ^ places := by
  have hlog := (log2_lt_iff (abs_pos.2 h.value_ne_zero)).2 hbound
  have hplace : lastPlace |x.value| ≤ stepPlace places := by
    have hleast := le_stepPlace hplaces
    rw [lastPlace]
    omega
  have hpow := (zpow_le_zpow_right₀ one_le_two hplace).trans_lt (step_bounds hplaces).1
  have hmoved := lt_nearest_add hx h.value_ne_zero (step_pos hplaces).le hpow
  have hscale : (0 : ℚ) < 10 ^ places := by positivity
  rw [← h]
  exact mul_lt_mul_of_pos_right hmoved hscale

theorem nudged_eq (hbound : 2 ^ (53 + stepPlace places) ≤ |x.value|) :
    nearest (|x.value| + step places) = |x.value| := by
  have hlog := (le_log2_iff (abs_pos.2 h.value_ne_zero)).2 hbound
  have hplace : stepPlace places + 1 ≤ lastPlace |x.value| := by
    rw [lastPlace]
    omega
  apply nearest_add_eq hx h.value_ne_zero (step_pos hplaces).le
  calc 2 * step places < 2 * 2 ^ stepPlace places :=
        mul_lt_mul_of_pos_left (step_bounds hplaces).2 two_pos
    _ = 2 ^ (stepPlace places + 1) := by rw [zpow_add_one₀ two_ne_zero, mul_comm]
    _ ≤ 2 ^ lastPlace |x.value| := zpow_le_zpow_right₀ one_le_two hplace

/-- Where the step is not lost the product with the power of ten is exact, so the tie is seen. -/
theorem nearHalf_eq (hbound : |x.value| < 2 ^ (53 + stepPlace places)) :
    x.nearHalf places = true := by
  obtain ⟨hfinite, hscale⟩ := value_scale hplaces
  have hpos : (0 : ℚ) < k + 1 / 2 := by positivity
  have hlt := h.lt_of_abs_value_lt hplaces hbound
  have hproduct : |x.value * (ofNat (Decimal.scale places)).value| = k + 1 / 2 := by
    rw [hscale, abs_mul, abs_of_pos (by positivity : (0 : ℚ) < 10 ^ places)]
    exact h
  have hne : x.value * (ofNat (Decimal.scale places)).value ≠ 0 := by
    rw [← abs_pos, hproduct]
    exact hpos
  have hrest : (k + 1 / 2 - ((k : ℤ) : ℚ) - 1 / 2 : ℚ).abs = 0 := by simp
  have hle : |x.value * (ofNat (Decimal.scale places)).value| ≤ 2 ^ (1023 : ℤ) :=
    (hproduct.trans_le hlt.le).trans (zpow_le_zpow_right₀ one_le_two (by decide))
  obtain ⟨hround, hvalue⟩ := abs_value_round hne hle
    (x.negative ^^ (ofNat (Decimal.scale places)).negative)
  rw [hproduct, nearest_half hlt] at hvalue
  rw [nearHalf, mul_of_finite hx hfinite, Metric.abs_value_abs, hvalue, hround, floor_half]
  simp only [Bool.true_and, decide_eq_true_iff, hrest]
  exact zpow_pos two_pos _

theorem nearestPlaces_nudged : (x + x.nudge places).nearestPlaces places =
    Decimal.placedText (decide (x.value < 0)) places
      (nearestEven (nearest (|x.value| + step places) * 10 ^ places)) := by
  obtain ⟨-, hvalue, hsign⟩ := value_add_nudge hx hplaces (h.add_step_le hx hplaces)
  rw [nearestPlaces_eq, hvalue, hsign, negative_eq h.value_ne_zero]

theorem toFixed_eq : x.toFixed places = Decimal.placedText (decide (x.value < 0)) places
    (if |x.value| < 2 ^ (53 + stepPlace places) then k + 1 else k + k % 2) := by
  have htie : x.isTie places = true := isTie_iff.2 ⟨k, h⟩
  rw [Binary64.toFixed_eq hx, unsignedZero_of_ne h.value_ne_zero, htie, Bool.and_true]
  by_cases hbound : |x.value| < 2 ^ (53 + stepPlace places)
  · rw [if_pos hbound]
    obtain ⟨-, hhigh⟩ := h.nudged_bounds hx hplaces
    rw [if_pos (h.nearHalf_eq hx hplaces hbound), h.nearestPlaces_nudged hx hplaces,
      nearestEven_above_half (h.nudged_above hx hplaces hbound) hhigh]
  · rw [if_neg hbound]
    -- Seen or not, such a tie is shown by the even multiple.
    have heven : nearestEven (|x.value| * 10 ^ places) = k + k % 2 := by
      rw [h, nearestEven_half]
    split
    · rw [h.nearestPlaces_nudged hx hplaces, h.nudged_eq hx hplaces (not_lt.1 hbound), heven]
    · rw [nearestPlaces_eq, negative_eq h.value_ne_zero, heven]

end HalfWay

theorem abs_value_ofPlaces (negative : Bool) (places units : ℕ) :
    |(Numeral.ofPlaces negative places units).value| * 10 ^ places = units := by
  have hscale : (10 ^ places : ℚ) ≠ 0 := by positivity
  have hpos : (0 : ℚ) ≤ units / 10 ^ places := by positivity
  rw [Numeral.value_ofPlaces]
  cases negative with
  | false => rw [if_neg Bool.false_ne_true, abs_of_nonneg hpos, div_mul_cancel₀ _ hscale]
  | true => rw [if_pos rfl, abs_neg, abs_of_nonneg hpos, div_mul_cancel₀ _ hscale]

/-- A tie is shown by the multiple further from zero as long as the step away from zero moves it;
where the last binary place of the number is too great for that, by the even one. -/
theorem tie_shown (hx : x.isFinite = true) (hplaces : places ≤ 22) (h : x.HalfWay places k) :
    ∃ n : Numeral, n.WritesPlaces places (x.toFixed places) ∧
      (n.negative = true ↔ x.value < 0) ∧ |n.value| * 10 ^ places =
        (if |x.value| < 2 ^ (53 + stepPlace places) then k + 1 else k + k % 2 : ℕ) := by
  rw [h.toFixed_eq hx hplaces]
  exact ⟨_, Numeral.writesPlaces_ofPlaces _ places _, decide_eq_true_iff,
    abs_value_ofPlaces _ places _⟩

theorem tie_shown_eighth :
    ((-0.125 : Binary64).isFinite = true ∧ 2 ≤ 22 ∧ (-0.125 : Binary64).HalfWay 2 12) ∧
      ∃ n : Numeral, n.WritesPlaces 2 ((-0.125 : Binary64).toFixed 2) ∧
        (n.negative = true ↔ (-0.125 : Binary64).value < 0) ∧ |n.value| * 10 ^ 2 = (13 : ℕ) := by
  have hvalue : (-0.125 : Binary64).value = -1 / 8 := by decide +kernel
  have hfinite : (-0.125 : Binary64).isFinite = true := by decide +kernel
  have htie : (-0.125 : Binary64).HalfWay 2 12 := by
    rw [HalfWay, hvalue]
    norm_num
  have hbound : |(-0.125 : Binary64).value| < 2 ^ (53 + stepPlace 2) := by
    have hplace : stepPlace 2 = -9 := by decide +kernel
    rw [hvalue, hplace]
    norm_num
  have hshown := tie_shown hfinite (by decide) htie
  rw [if_pos hbound] at hshown
  exact ⟨⟨hfinite, by decide, htie⟩, hshown⟩

/-- At `2^50` a tenth is less than half of the last binary place, and the even unit is shown. -/
theorem great_tie_to_even :
    (1125899906842624.5 : Binary64).HalfWay 0 1125899906842624 ∧
      (1125899906842624.5 : Binary64).toFixed 0 = "1125899906842624" ∧
        ¬∃ n : Numeral, n.WritesPlaces 0 ((1125899906842624.5 : Binary64).toFixed 0) ∧
          |n.value| * 10 ^ 0 = 1125899906842624 + 1 := by
  have hvalue : (1125899906842624.5 : Binary64).value = 2251799813685249 / 2 := by decide +kernel
  have hshown : (1125899906842624.5 : Binary64).toFixed 0 =
      Decimal.placedText false 0 1125899906842624 := by decide +kernel
  refine ⟨?_, by decide +kernel, ?_⟩
  · rw [HalfWay, hvalue]
    norm_num
  · rintro ⟨n, hn, hunits⟩
    rw [hshown] at hn
    obtain rfl := hn.unique (Numeral.writesPlaces_ofPlaces false 0 1125899906842624)
    rw [abs_value_ofPlaces] at hunits
    norm_num at hunits

end ActivityBoard.Binary64
