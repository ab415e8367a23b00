import ActivityBoard.Proofs.Binary64.Closest
import ActivityBoard.Proofs.Figure

/-!
The step away from zero that is added to a tie: a tenth of a unit of the last decimal place, but for
two roundings. Added to a number it carries this two tenths at most, and is lost where the last
binary place of the number is more than twice as great.
-/
namespace ActivityBoard.Binary64

variable {x : Binary64} {q : ℚ} {places : ℕ}

section Size

/-- Up to `10^22` a power of ten is a number, because that of five in it has 53 bits at most. -/
theorem value_scale (h : places ≤ 22) : (ofNat (Decimal.scale places)).isFinite = true ∧
    (ofNat (Decimal.scale places)).value = 10 ^ places := by
  have hfive : 5 ^ places < 2 ^ 53 :=
    (Nat.pow_le_pow_right (by decide) h).trans_lt (by decide)
  have hcast : (((Decimal.scale places : ℕ) : ℤ) : ℚ) = 10 ^ places := by
    simp [Decimal.scale]
  have hsplit : (10 ^ places : ℚ) = (5 ^ places : ℕ) * 2 ^ (places : ℤ) := by
    rw [zpow_natCast]
    push_cast
    rw [← mul_pow]
    norm_num
  have hpos : (0 : ℚ) < 10 ^ places := by positivity
  have hsmall : (10 ^ places : ℚ) < 2 ^ (53 + places : ℤ) := by
    rw [hsplit, zpow_add₀ two_ne_zero]
    apply mul_lt_mul_of_pos_right _ (zpow_pos two_pos _)
    exact_mod_cast hfive
  have hplace : lastPlace (10 ^ places) ≤ places := by
    have hlog := (log2_lt_iff hpos).2 hsmall
    rw [lastPlace]
    omega
  have hle : (10 ^ places : ℚ) ≤ 2 ^ (1023 : ℤ) :=
    hsmall.le.trans (zpow_le_zpow_right₀ one_le_two (by omega))
  rw [ofNat, ofInt, hcast, value_round_of_pos hpos hle, nearest_eq_of_place hpos hplace hsplit]
  exact ⟨(abs_value_round hpos.ne' (by rwa [abs_of_pos hpos]) false).1, rfl⟩

theorem tenth_close : |(0.1 : Binary64).value * 10 - 1| ≤ 2 ^ (-53 : ℤ) := by
  have hvalue : (0.1 : Binary64).value = nearest (1 / 10) := by
    rw [tenth_eq_round]
    have hone : (1 / 10 : ℚ) ≤ 1 := by norm_num
    exact value_round_of_pos (by norm_num) (hone.trans (one_le_zpow₀ one_le_two (by decide))) false
  have hpow : (2 : ℚ) ^ (-1022 : ℤ) ≤ 2 ^ (-4 : ℤ) := zpow_le_zpow_right₀ one_le_two (by decide)
  have hclose := abs_nearest_sub_le_mul (q := 1 / 10) (hpow.trans (by norm_num))
  rw [hvalue]
  calc |nearest (1 / 10) * 10 - 1| = |(nearest (1 / 10) - 1 / 10) * 10| := by ring_nf
    _ = |nearest (1 / 10) - 1 / 10| * 10 := by rw [abs_mul]; norm_num
    _ ≤ 1 / 10 * 2 ^ (-53 : ℤ) * 10 := mul_le_mul_of_nonneg_right hclose (by norm_num)
    _ = 2 ^ (-53 : ℤ) := by ring

def step (places : ℕ) : ℚ := nearest ((0.1 : Binary64).value / 10 ^ places)

theorem tenth_bounds : (1 : ℚ) / 16 ≤ (0.1 : Binary64).value ∧ (0.1 : Binary64).value ≤ 1 := by
  have hclose := abs_le.1 tenth_close
  norm_num at hclose
  constructor <;> linarith

theorem tenth_div_bounds (h : places ≤ 22) :
    (2 : ℚ) ^ (-80 : ℤ) ≤ (0.1 : Binary64).value / 10 ^ places ∧
      (0.1 : Binary64).value / 10 ^ places ≤ 1 := by
  obtain ⟨hlow, hhigh⟩ := tenth_bounds
  have hscale : (10 ^ places : ℚ) ≤ 10 ^ 22 := pow_le_pow_right₀ (by norm_num) h
  have hone : (1 : ℚ) ≤ 10 ^ places := one_le_pow₀ (by norm_num)
  have hpos := zero_lt_one.trans_le hone
  have hleast : (2 : ℚ) ^ (-80 : ℤ) * 10 ^ 22 ≤ 1 / 16 := by norm_num
  constructor
  · rw [le_div_iff₀ hpos]
    exact (mul_le_mul_of_nonneg_left hscale (zpow_pos two_pos _).le).trans (hleast.trans hlow)
  · rw [div_le_iff₀ hpos]
    linarith

/-- Two roundings, each by a part in `2^53`, part the step from a tenth of a unit. -/
theorem step_close (h : places ≤ 22) : |step places * 10 ^ (places + 1) - 1| ≤ 2 ^ (-51 : ℤ) := by
  have hpos : (0 : ℚ) < 10 ^ (places + 1) := by positivity
  have hdiv := abs_nearest_sub_le_mul
    ((zpow_le_zpow_right₀ one_le_two (by decide)).trans (tenth_div_bounds h).1)
  have htenth := tenth_close
  have hten : (0.1 : Binary64).value / 10 ^ places * 10 ^ (places + 1) =
      (0.1 : Binary64).value * 10 := by
    rw [pow_succ]
    field_simp
  have hbounds := abs_le.1 htenth
  have hscaled : |step places * 10 ^ (places + 1) - (0.1 : Binary64).value * 10| ≤
      (0.1 : Binary64).value * 10 * 2 ^ (-53 : ℤ) := by
    rw [← hten, ← sub_mul, abs_mul, abs_of_pos hpos, mul_right_comm]
    exact mul_le_mul_of_nonneg_right hdiv hpos.le
  generalize (0.1 : Binary64).value * 10 = t at *
  calc |step places * 10 ^ (places + 1) - 1|
      ≤ |step places * 10 ^ (places + 1) - t| + |t - 1| := abs_sub_le ..
    _ ≤ t * 2 ^ (-53 : ℤ) + 2 ^ (-53 : ℤ) := add_le_add hscaled htenth
    _ ≤ 2 ^ (-51 : ℤ) := by
      norm_num at hbounds ⊢
      linarith

/-- The exponent of the power of two next above the step. -/
def stepPlace (places : ℕ) : ℤ := -((10 ^ (places + 1)).log2 : ℤ)

theorem le_stepPlace (h : places ≤ 22) : -80 ≤ stepPlace places := by
  have hten : 10 ^ (places + 1) < 2 ^ 80 :=
    (Nat.pow_le_pow_right (by decide) (Nat.succ_le_succ h)).trans_lt (by decide)
  have hlog := (Nat.log2_lt (by positivity)).2 hten
  rw [stepPlace]
  omega

/-- No power of ten here comes so near to one of two that the roundings could carry over it. -/
theorem log2_scale_bounds : ∀ places < 23,
    10 ^ (places + 1) * 2 ^ 51 + 2 ^ ((10 ^ (places + 1)).log2 + 1) <
        2 ^ ((10 ^ (places + 1)).log2 + 1) * 2 ^ 51 ∧
      2 ^ (10 ^ (places + 1)).log2 * (2 ^ 51 + 1) < 10 ^ (places + 1) * 2 ^ 51 := by
  decide +kernel

theorem scale_bounds (h : places ≤ 22) :
    (10 ^ (places + 1) : ℚ) < 2 * 2 ^ (10 ^ (places + 1)).log2 * (1 - 2 ^ (-51 : ℤ)) ∧
      2 ^ (10 ^ (places + 1)).log2 * (1 + 2 ^ (-51 : ℤ)) < (10 ^ (places + 1) : ℚ) := by
  obtain ⟨hlow, hhigh⟩ := log2_scale_bounds places (by omega)
  constructor
  · have hcast : (10 ^ (places + 1) * 2 ^ 51 : ℚ) + 2 ^ ((10 ^ (places + 1)).log2 + 1) <
        2 ^ ((10 ^ (places + 1)).log2 + 1) * 2 ^ 51 := by exact_mod_cast hlow
    rw [pow_succ _ (Nat.log2 _)] at hcast
    norm_num at hcast ⊢
    linarith
  · have hcast : (2 ^ (10 ^ (places + 1)).log2 * (2 ^ 51 + 1) : ℚ) <
        10 ^ (places + 1) * 2 ^ 51 := by exact_mod_cast hhigh
    norm_num at hcast ⊢
    linarith

theorem inv_bounds_of_close {s b d ε : ℚ} (hclose : |s * d - 1| ≤ ε) (hpos : 0 < ε) (hone : ε < 1)
    (hb : 0 < b) (hlow : d < 2 * b * (1 - ε)) (hhigh : b * (1 + ε) < d) :
    b⁻¹ < 2 * s ∧ s < b⁻¹ := by
  obtain ⟨hclose, hclose'⟩ := abs_le.1 hclose
  have hd : 0 < d := (mul_pos hb (add_pos zero_lt_one hpos)).trans hhigh
  have hs : 0 < s := pos_of_mul_pos_left (b := d) (by linarith) hd.le
  constructor
  · rw [inv_lt_iff_one_lt_mul₀ hb]
    have hmul := mul_lt_mul_of_pos_left hlow hs
    apply lt_of_mul_lt_mul_right _ (sub_nonneg.2 hone.le)
    linarith
  · rw [← one_div, lt_div_iff₀ hb]
    have hmul := mul_lt_mul_of_pos_left hhigh hs
    apply lt_of_mul_lt_mul_right _ (add_pos zero_lt_one hpos).le
    linarith

theorem step_bounds (h : places ≤ 22) :
    2 ^ stepPlace places < 2 * step places ∧ step places < 2 ^ stepPlace places := by
  obtain ⟨hlow, hhigh⟩ := scale_bounds h
  rw [stepPlace, zpow_neg, zpow_natCast]
  exact inv_bounds_of_close (step_close h) (by norm_num) (by norm_num) (by positivity) hlow hhigh

end Size

section Nudged

theorem signed_tenth : (1 : Binary64) * 0.1 = 0.1 ∧ (-1 : Binary64) * 0.1 = neg 0.1 := by
  decide +kernel

theorem value_nudge (x : Binary64) (h : places ≤ 22) : (x.nudge places).isFinite = true ∧
    (x.nudge places).value = if x.negative then -step places else step places := by
  obtain ⟨hlow, hhigh⟩ := tenth_div_bounds h
  obtain ⟨hfinite, hscale⟩ := value_scale h
  have hpos : 0 < (0.1 : Binary64).value / 10 ^ places := (zpow_pos two_pos _).trans_le hlow
  have hne : (ofNat (Decimal.scale places)).value ≠ 0 := by
    rw [hscale]
    positivity
  have hstep (s : Bool) : (round ((0.1 : Binary64).value / 10 ^ places) s).value = step places :=
    value_round_of_pos hpos (hhigh.trans (one_le_zpow₀ one_le_two (by decide))) s
  refine ⟨(within_nudge x places).finite, ?_⟩
  rw [nudge]
  cases x.negative with
  | false =>
    rw [if_neg Bool.false_ne_true, if_neg Bool.false_ne_true, signed_tenth.1,
      div_of_finite within_tenth.finite hfinite hne, hscale]
    exact hstep _
  | true =>
    rw [if_pos rfl, if_pos rfl, signed_tenth.2,
      div_of_finite within_tenth.neg.finite hfinite hne, hscale, value_neg, neg_div,
      ← neg_round hpos.ne' false, value_neg]
    exact congrArg _ (hstep _)

theorem step_pos (h : places ≤ 22) : 0 < step places := by
  have hlow := (zpow_pos (two_pos (α := ℚ)) _).trans (step_bounds h).1
  linarith

theorem signed_cases (s : Bool) (hq : 0 < q) : (if s then -q else q) ≠ 0 ∧
    |if s then -q else q| = q ∧ decide ((if s then -q else q) < 0) = s := by
  cases s with
  | false => exact ⟨hq.ne', abs_of_pos hq, decide_eq_false hq.not_gt⟩
  | true => exact ⟨(neg_neg_of_pos hq).ne, (abs_neg q).trans (abs_of_pos hq),
      decide_eq_true (neg_neg_of_pos hq)⟩

theorem value_add_nudge (hx : x.isFinite = true) (hplaces : places ≤ 22)
    (h : |x.value| + step places ≤ 2 ^ (1023 : ℤ)) :
    (x + x.nudge places).isFinite = true ∧
      |(x + x.nudge places).value| = nearest (|x.value| + step places) ∧
        (x + x.nudge places).negative = x.negative := by
  obtain ⟨hfinite, hnudge⟩ := value_nudge x hplaces
  have hpos : 0 < |x.value| + step places :=
    add_pos_of_nonneg_of_pos (abs_nonneg _) (step_pos hplaces)
  have hsum : x.value + (x.nudge places).value =
      if x.negative then -(|x.value| + step places) else |x.value| + step places := by
    have hsigned := value_eq_signed x
    rw [hnudge]
    split_ifs at hsigned ⊢ <;> linarith
  obtain ⟨hne, habs, hsign⟩ := signed_cases x.negative hpos
  rw [add_of_finite hx hfinite, hsum, negative_round hne, hsign]
  have hrounded := abs_value_round hne (habs.le.trans h) (x.negative && (x.nudge places).negative)
  rw [habs] at hrounded
  exact ⟨hrounded.1, hrounded.2, rfl⟩

end Nudged

end ActivityBoard.Binary64
