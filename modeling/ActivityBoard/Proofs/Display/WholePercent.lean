import ActivityBoard.Display.Annotate
import ActivityBoard.Proofs.Binary64.Exact
import ActivityBoard.Proofs.Binary64.Nearest
import ActivityBoard.Proofs.Metric

/-!
Whole percents. A half goes up by a difference and a sum that are each rounded, and yet the integer
that comes out is that of the exact value: what a number leaves above its integer part is lost to
rounding only where it is more than a half.
-/
namespace ActivityBoard

namespace Binary64

open Json

variable {x : Binary64} {n : ℤ}

theorem value_half : (0.5 : Binary64).isFinite = true ∧ (0.5 : Binary64).value = 1 / 2 := by
  decide +kernel

theorem half_le_abs_value (hne : ⌊x.value⌋ ≠ 0) (h : x.value - ⌊x.value⌋ < 1 / 2) :
    2 ^ (-1 : ℤ) ≤ |x.value| := by
  have hlow : (⌊x.value⌋ : ℚ) ≤ x.value := Int.floor_le x.value
  rw [zpow_neg_one, le_abs]
  obtain hneg | hpos := lt_or_gt_of_ne hne
  · have hfloor : (⌊x.value⌋ : ℚ) ≤ -1 := by exact_mod_cast Int.le_sub_one_of_lt hneg
    exact .inr (by linarith)
  · have hfloor : (1 : ℚ) ≤ ⌊x.value⌋ := by exact_mod_cast hpos
    exact .inl (by linarith)

theorem exists_units_fract (hx : x.isFinite = true) (h : 2 ^ (-1 : ℤ) ≤ |x.value|) :
    ∃ m : ℕ, m < 2 * leadingBit ∧ x.value - ⌊x.value⌋ = m * 2 ^ (-53 : ℤ) := by
  have hunit : (0 : ℚ) < 2 ^ (-53 : ℤ) := zpow_pos two_pos _
  have hone : (2 : ℚ) ^ 53 * 2 ^ (-53 : ℤ) = 1 := by norm_num
  obtain ⟨n, hn⟩ := exists_units_of_reaches hx h
  have hfract : x.value - ⌊x.value⌋ = (n - ⌊x.value⌋ * 2 ^ 53 : ℤ) * 2 ^ (-53 : ℤ) := by
    rw [Int.cast_sub, sub_mul, Int.cast_mul, mul_assoc, Int.cast_pow, Int.cast_ofNat, hone, mul_one]
    exact congrArg (· - (⌊x.value⌋ : ℚ)) hn
  have hlow : 0 ≤ x.value - ⌊x.value⌋ := sub_nonneg.2 (Int.floor_le x.value)
  have hhigh : x.value - ⌊x.value⌋ < 2 ^ 53 * 2 ^ (-53 : ℤ) := by
    rw [hone, sub_lt_iff_lt_add']
    exact Int.lt_floor_add_one x.value
  generalize n - ⌊x.value⌋ * 2 ^ 53 = r at hfract
  rw [hfract] at hlow hhigh ⊢
  have hnonneg : 0 ≤ r := by exact_mod_cast nonneg_of_mul_nonneg_left hlow hunit
  obtain ⟨m, rfl⟩ := Int.eq_ofNat_of_zero_le hnonneg
  refine ⟨m, ?_, rfl⟩
  exact_mod_cast lt_of_mul_lt_mul_right hhigh hunit.le

/-- Away from zero there is a binary place for what is left above the integer part; next to zero
it is the number itself. -/
theorem value_round_fract (hx : x.isFinite = true) (h : x.value - ⌊x.value⌋ < 1 / 2)
    (negative : Bool) : (round (x.value - ⌊x.value⌋) negative).value = x.value - ⌊x.value⌋ := by
  by_cases hzero : ⌊x.value⌋ = 0
  · rw [hzero, Int.cast_zero, sub_zero]
    exact (value_round_value hx negative).2
  · obtain ⟨m, hlt, hm⟩ := exists_units_fract hx (half_le_abs_value hzero h)
    rw [hm]
    exact (value_round_units hlt (by decide) (by decide) negative).2

theorem half_le_sub_floor_iff (hx : x.isFinite = true) :
    0.5 ≤ x - x.floor ↔ 1 / 2 ≤ x.value - ⌊x.value⌋ := by
  have hfloor := isInt_floor hx
  have hlow := Int.floor_le x.value
  have hhigh := Int.lt_floor_add_one x.value
  have hsub : x - x.floor =
      round (x.value - ⌊x.value⌋) (x.negative && (-x.floor).negative) := by
    have hadd := add_of_finite hx hfloor.neg.finite
    rw [hfloor.neg.value_eq, Int.cast_neg, ← sub_eq_add_neg] at hadd
    exact hadd
  have hone : |x.value - ⌊x.value⌋| ≤ 2 ^ (0 : ℤ) := by
    rw [abs_of_nonneg (by linarith), zpow_zero]
    linarith
  have hfinite := (within_round hone (by decide) (x.negative && (-x.floor).negative)).finite
  rw [hsub, le_iff_value_le value_half.1 hfinite, value_half.2]
  constructor
  · intro h
    by_contra hlt
    rw [value_round_fract hx (not_le.1 hlt)] at h
    exact hlt h
  · intro h
    have hpos : 0 < x.value - ⌊x.value⌋ := one_half_pos.trans_le h
    have hhalf : (2 : ℚ) ^ (-1 : ℤ) ≤ x.value - ⌊x.value⌋ := by
      rw [zpow_neg_one]
      linarith
    rw [value_round_of_finite hpos hfinite, one_div, ← zpow_neg_one]
    exact le_nearest hpos hhalf (by decide)

theorem representable_succ_floor (hx : x.isFinite = true) (h : 1 / 2 ≤ x.value - ⌊x.value⌋) :
    Representable (⌊x.value⌋ + 1) := by
  obtain ⟨n, hn⟩ | hlt := eq_intCast_or_lt hx
  · rw [hn, Int.floor_intCast, sub_self] at h
    exact absurd h (by norm_num)
  · have hfloor := abs_le.1 (abs_floor_le hlt)
    apply representable_of_abs_lt
    rw [abs_lt]
    push_cast
    omega

/-- The integer is that of the exact value, whatever becomes of the difference and the sum. -/
theorem isInt_roundHalfUp (hx : x.isFinite = true) : x.roundHalfUp.IsInt ⌊x.value + 1 / 2⌋ := by
  have hfloor := isInt_floor hx
  have hlow := Int.floor_le x.value
  have hhigh := Int.lt_floor_add_one x.value
  rw [roundHalfUp]
  split
  · rename_i h
    rw [half_le_sub_floor_iff hx] at h
    have hup : ⌊x.value + 1 / 2⌋ = ⌊x.value⌋ + 1 :=
      Int.floor_eq_iff.2 ⟨by push_cast; linarith, by push_cast; linarith⟩
    rw [hup]
    exact hfloor.add (isInt_ofNat (m := 1) (by decide)) (representable_succ_floor hx h)
  · rename_i h
    rw [half_le_sub_floor_iff hx, not_le] at h
    have hdown : ⌊x.value + 1 / 2⌋ = ⌊x.value⌋ :=
      Int.floor_eq_iff.2 ⟨by linarith, by linarith⟩
    rw [hdown]
    exact hfloor

theorem placedText_zero (n : ℤ) : Decimal.placedText (decide (n < 0)) 0 n.natAbs = Int.repr n := by
  have hofInt : Numeral.ofPlaces (decide (n < 0)) 0 n.natAbs = Numeral.ofInt n := by
    rw [Numeral.ofPlaces, Numeral.ofInt, Decimal.scale, Nat.pow_eq, pow_zero, Nat.div_one,
      if_pos rfl]
  have hwrites := Numeral.writesPlaces_ofPlaces (decide (n < 0)) 0 n.natAbs
  rw [hofInt] at hwrites
  exact String.toList_injective (hwrites.toList_eq.trans (Numeral.chars_ofInt n))

theorem isPlain_repr (n : ℤ) : IsPlain (Int.repr n) :=
  ⟨.ofInt n, Numeral.wellFormed_ofInt n, rfl, (Numeral.chars_ofInt n).symm⟩

theorem IsInt.toFixed_zero (h : x.IsInt n) : x.toFixed 0 = Int.repr n := by
  have hplaces : 0 ≤ 22 := by decide
  obtain ⟨units, hshown, hclose⟩ := exists_units_shown h.finite hplaces
  have hunits : units = n.natAbs := by
    rw [h.value_eq, pow_zero, mul_one, ← Int.cast_abs, Int.abs_eq_natAbs] at hclose
    have hlt : |(units - n.natAbs : ℤ)| < 1 := by
      exact_mod_cast hclose.trans_lt one_half_lt_one
    rw [Int.abs_lt_one_iff] at hlt
    omega
  have hsign : decide (x.value < 0) = decide (n < 0) := by
    rw [h.value_eq]
    exact decide_eq_decide.2 (by exact_mod_cast Iff.rfl)
  rw [hshown, hunits, hsign, placedText_zero]

end Binary64

namespace Display

open Binary64

variable {x : Binary64}

theorem pressure_eq (hx : x.isFinite = true) :
    pressure x = Int.repr ⌊x.value + 1 / 2⌋ ++ "%" := by
  rw [pressure, percent, (isInt_roundHalfUp hx).toFixed_zero]

theorem render?_pressure (hx : x.isFinite = true) (context : Context) :
    render? .pressure context (Json.ofMetric x) = some (Int.repr ⌊x.value + 1 / 2⌋ ++ "%") := by
  obtain ⟨n, hn, hvalue, hlimit⟩ | hfloat := Metric.ofMetric_cases hx
  · have hint : (ofInt n).IsInt n :=
      (representable_of_abs_lt (hlimit.trans (by decide))).isInt_ofInt
    rw [hn, hvalue, ← hint.value_eq, ← pressure_eq hint.finite]
    rfl
  · rw [hfloat, ← pressure_eq hx]
    rfl

theorem isScalar_ofMetric (hx : x.isFinite = true) : isScalar (Json.ofMetric x) = true := by
  obtain ⟨n, hn, -⟩ | hfloat := Metric.ofMetric_cases hx
  · rw [hn]
    rfl
  · rw [hfloat]
    rfl

/-- Pressures and shares are shown by the integer nearest to the exact value, from a half on by the
one above. -/
theorem whole_percents_exact :
    (∀ x : Binary64, x.isFinite = true →
      x.roundHalfUp.isFinite = true ∧ x.roundHalfUp.value = ⌊x.value + 1 / 2⌋ ∧
        pressure x = Int.repr ⌊x.value + 1 / 2⌋ ++ "%") ∧
    ∀ ticks perCore : Binary64, perCore.isZero = false →
      (ticks * 100 / perCore).isFinite = true →
        share ticks perCore = Int.repr ⌊(ticks * 100 / perCore).value + 1 / 2⌋ ++ "%" := by
  constructor
  · intro x hx
    have hint := isInt_roundHalfUp hx
    exact ⟨hint.finite, hint.value_eq, pressure_eq hx⟩
  · intro ticks perCore hzero hquotient
    rw [share, if_neg (by rw [hzero]; decide)]
    exact pressure_eq hquotient

theorem whole_percents_exact_next_to_half :
    ((0.49999999999999994 : Binary64).isFinite = true ∧ pressure 0.49999999999999994 = "0%") ∧
    ((-0.5 : Binary64).isFinite = true ∧ pressure (-0.5) = "0%") ∧
    ((8 : Binary64).isZero = false ∧ (1 * 100 / 8 : Binary64).isFinite = true ∧
      share 1 8 = "13%") := by
  have hbelow : (0.49999999999999994 : Binary64).isFinite = true ∧
      ⌊(0.49999999999999994 : Binary64).value + 1 / 2⌋ = 0 := by decide +kernel
  have hneg : (-0.5 : Binary64).isFinite = true ∧ ⌊(-0.5 : Binary64).value + 1 / 2⌋ = 0 := by
    decide +kernel
  have hshare : (8 : Binary64).isZero = false ∧ (1 * 100 / 8 : Binary64).isFinite = true ∧
      ⌊(1 * 100 / 8 : Binary64).value + 1 / 2⌋ = 13 := by decide +kernel
  obtain ⟨hpressure, hticks⟩ := whole_percents_exact
  refine ⟨⟨hbelow.1, ?_⟩, ⟨hneg.1, ?_⟩, hshare.1, hshare.2.1, ?_⟩
  · rw [(hpressure _ hbelow.1).2.2, hbelow.2]
    rfl
  · rw [(hpressure _ hneg.1).2.2, hneg.2]
    rfl
  · rw [hticks _ _ hshare.1 hshare.2.1, hshare.2.2]
    rfl

end Display

end ActivityBoard
