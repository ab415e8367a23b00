import ActivityBoard.Figure
import ActivityBoard.Proofs.Binary64.FixedPlaces
import ActivityBoard.Proofs.Binary64.Sign
import ActivityBoard.Proofs.Metric

/-!
Figures as they read. What is shown of a value is no further from zero than the value, but for the
step away from a tie, and has no minus sign unless the value is negative.
-/
namespace ActivityBoard

namespace Binary64

open Json

variable {x y : Binary64} {places k : ℕ}

theorem nearestEven_inPlaces_le (h : x.Within k) (places : ℕ) :
    nearestEven (x.inPlaces places) ≤ 2 ^ k * Decimal.scale places := by
  apply nearestEven_le
  rw [inPlaces, Metric.abs_value_abs]
  push_cast
  exact mul_le_mul_of_nonneg_right (by exact_mod_cast h.le) (Nat.cast_nonneg _)

theorem within_numeral (h : x.Within k) (hk : InRange k) (places : ℕ) :
    (x.numeral places).number.Within k := by
  have hscale : (0 : ℚ) < 10 ^ places := by positivity
  have hunits : (nearestEven (x.inPlaces places) : ℚ) ≤ 2 ^ k * 10 ^ places := by
    exact_mod_cast nearestEven_inPlaces_le h places
  have hdecimal : (ofDecimal (nearestEven (x.inPlaces places)) (-places)).Within k := by
    rw [ofDecimal_eq_round]
    apply within_round _ hk
    rw [abs_of_nonneg (by positivity), zpow_neg, zpow_natCast, zpow_natCast, ← div_eq_mul_inv]
    exact (div_le_iff₀ hscale).2 hunits
  rw [Numeral.number, numeral, Numeral.decimal_ofPlaces]
  dsimp only
  split
  · exact hdecimal.neg
  · exact hdecimal

theorem value_numeral_nonneg (h : x.negative = false) (places : ℕ) :
    0 ≤ (x.numeral places).number.value := by
  have hnegative : (x.numeral places).negative = false := h
  rw [Numeral.number, hnegative, if_neg Bool.false_ne_true, ofDecimal_eq_round]
  exact value_round_nonneg (by positivity) _

section Unsigned

theorem unsignedZero_of_ne (hne : x.value ≠ 0) : x.unsignedZero = x := by
  rw [unsignedZero, if_neg]
  intro hzero
  exact hne ((isZero_iff (isFinite_of_isZero hzero)).1 hzero)

theorem finite_unsignedZero (hx : x.isFinite = true) : x.unsignedZero.isFinite = true := by
  rw [unsignedZero]
  split
  · rfl
  · exact hx

theorem unsignedZero_of_value_zero (hx : x.isFinite = true) (h : x.value = 0) :
    x.unsignedZero = 0 := by
  rw [unsignedZero, if_pos ((isZero_iff hx).2 h)]

theorem value_literal_zero : (0 : Binary64).value = 0 := by decide +kernel

theorem value_unsignedZero (hx : x.isFinite = true) : x.unsignedZero.value = x.value := by
  by_cases h : x.value = 0
  · rw [unsignedZero_of_value_zero hx h, value_literal_zero, h]
  · rw [unsignedZero_of_ne h]

theorem negative_unsignedZero_eq (hx : x.isFinite = true) :
    x.unsignedZero.negative = decide (x.value < 0) := by
  by_cases h : x.value = 0
  · rw [unsignedZero_of_value_zero hx h, h]
    rfl
  · rw [unsignedZero_of_ne h, negative_eq h]

theorem unsignedZero_congr (hx : x.isFinite = true) (hy : y.isFinite = true)
    (h : x.value = y.value) : x.unsignedZero = y.unsignedZero := by
  by_cases hzero : x.value = 0
  · rw [unsignedZero_of_value_zero hx hzero, unsignedZero_of_value_zero hy (h ▸ hzero)]
  · have hne : y.value ≠ 0 := h ▸ hzero
    rw [unsignedZero_of_ne hzero, unsignedZero_of_ne hne, ← round_value hx, ← round_value hy,
      negative_eq hzero, negative_eq hne, h]

theorem within_unsignedZero (h : x.Within k) : x.unsignedZero.Within k := by
  refine ⟨finite_unsignedZero h.finite, ?_⟩
  rw [value_unsignedZero h.finite]
  exact h.le

theorem negative_unsignedZero (hx : x.isFinite = true) (h : 0 ≤ x.value) :
    x.unsignedZero.negative = false := by
  rw [negative_unsignedZero_eq hx, decide_eq_false h.not_gt]

end Unsigned

theorem reaches_scale (places : ℕ) : (ofNat (Decimal.scale places)).Reaches 0 :=
  reaches_ofNat (Nat.pow_pos (by decide)).ne'

theorem within_one : (1 : Binary64).Within 0 := within_ofNat (n := 1) (by norm_num) (by decide)

theorem tenth_eq_round : (0.1 : Binary64) = round (1 / 10) false := by
  have hdecimal := ofDecimal_eq_round 1 (-1)
  norm_num at hdecimal
  exact hdecimal

theorem within_tenth : (0.1 : Binary64).Within 0 := by
  rw [tenth_eq_round]
  exact within_round (by norm_num) (by decide) _

theorem within_nudge (x : Binary64) (places : ℕ) : (x.nudge places).Within 0 := by
  have hsign : (if x.negative then -1 else 1 : Binary64).Within 0 := by
    split
    · exact within_one.neg
    · exact within_one
  exact (hsign.mul within_tenth (by decide)).div (reaches_scale places) (by decide)

theorem value_nudge_nonneg (h : x.negative = false) (places : ℕ) :
    0 ≤ (x.nudge places).value := by
  have hone : 0 ≤ (1 : Binary64).value := value_ofInt_nonneg (n := 1) (by decide)
  have htenth : 0 ≤ (0.1 : Binary64).value := by
    rw [tenth_eq_round]
    exact value_round_nonneg (by norm_num) _
  have hscale : 0 ≤ (ofNat (Decimal.scale places)).value :=
    value_ofInt_nonneg (Int.natCast_nonneg _)
  rw [nudge, h, if_neg Bool.false_ne_true]
  apply value_div_nonneg
  rw [mul_of_finite within_one.finite within_tenth.finite]
  exact mul_nonneg (value_round_nonneg (mul_nonneg hone htenth) _) hscale

/-- What is shown of a number is the nearest decimal of one that is little greater at most. -/
theorem exists_toFixed_eq (h : x.Within k) (hk : InRange (k + 1)) (places : ℕ) :
    ∃ y : Binary64, x.toFixed places = y.nearestPlaces places ∧ y.Within (k + 1) ∧
      (0 ≤ x.value → y.negative = false) := by
  have hzero := within_unsignedZero h
  have hnudge : (x.unsignedZero.nudge places).Within k := (within_nudge _ _).mono (by positivity)
  obtain hshown | hshown := toFixed_cases h.finite places
  · exact ⟨_, hshown, hzero.mono (by omega), negative_unsignedZero h.finite⟩
  · refine ⟨_, hshown, hzero.add hnudge hk, fun hvalue => ?_⟩
    have hnegative := negative_unsignedZero h.finite hvalue
    rw [add_of_finite hzero.finite hnudge.finite, hnegative, Bool.false_and]
    exact negative_round_of_nonneg (add_nonneg (value_nonneg_of_not_negative hnegative)
      (value_nudge_nonneg hnegative places))

end Binary64

namespace Figure

open Binary64

variable {x : Binary64} {k : ℕ}

theorem exists_reading_eq (h : x.Within k) (hk : InRange (k + 1)) (places : ℕ) :
    ∃ y : Binary64, reading ⟨x, places⟩ = (y.numeral places).number ∧ y.Within (k + 1) ∧
      (0 ≤ x.value → y.negative = false) := by
  obtain ⟨y, hshown, hy⟩ := exists_toFixed_eq h hk places
  refine ⟨y, ?_, hy⟩
  rw [reading, text, hshown, ofText?_nearestPlaces, Option.getD_some]

theorem within_reading (h : x.Within k) (hk : InRange (k + 1)) (places : ℕ) :
    (reading ⟨x, places⟩).Within (k + 1) := by
  obtain ⟨y, hreading, hy, -⟩ := exists_reading_eq h hk places
  rw [hreading]
  exact within_numeral (k := k + 1) hy hk places

theorem reading_nonneg (h : x.Within k) (hk : InRange (k + 1)) (hx : 0 ≤ x.value) (places : ℕ) :
    0 ≤ (reading ⟨x, places⟩).value := by
  obtain ⟨y, hreading, -, hnegative⟩ := exists_reading_eq h hk places
  rw [hreading]
  exact value_numeral_nonneg (hnegative hx) places

/-- The figure reads as a number, which is not above a hundred. -/
structure ReadsToHundred (f : Figure) : Prop where
  finite : f.reading.isFinite = true
  le : f.reading.value ≤ 100

theorem value_hundred : (100 : Binary64).isFinite = true ∧ (100 : Binary64).value = 100 := by
  have hhundred := value_ofInt (representable_of_lt (k := 100) (by decide))
  exact_mod_cast hhundred

theorem reading_hundred : reading ⟨100, 0⟩ = 100 := by decide +kernel

theorem reading_zero : reading ⟨0, 1⟩ = 0 := by decide +kernel

theorem readsToHundred_zero : ReadsToHundred ⟨0, 1⟩ := by
  have hzero := value_ofInt (representable_of_lt (k := 0) (by decide))
  constructor <;> rw [reading_zero]
  · exact hzero.1
  · exact hzero.2.le.trans (by norm_num)

theorem readsToHundred_cappedPercent (h : x.Within k) (hk : InRange (k + 1)) (places : ℕ) :
    (cappedPercent x places).ReadsToHundred := by
  rw [cappedPercent]
  split
  · constructor <;> rw [reading_hundred]
    · exact value_hundred.1
    · exact value_hundred.2.le
  · rename_i hnot
    have hfinite := (within_reading h hk places).finite
    refine ⟨hfinite, ?_⟩
    rw [lt_iff_value_lt value_hundred.1 hfinite, not_lt, value_hundred.2] at hnot
    exact hnot

theorem reading_cappedPercent_nonneg (h : x.Within k) (hk : InRange (k + 1)) (hx : 0 ≤ x.value)
    (places : ℕ) : 0 ≤ (cappedPercent x places).reading.value := by
  rw [cappedPercent]
  split
  · rw [reading_hundred, value_hundred.2]
    norm_num
  · exact reading_nonneg h hk hx places

end Figure

end ActivityBoard
