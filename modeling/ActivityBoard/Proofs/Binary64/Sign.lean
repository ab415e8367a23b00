import ActivityBoard.Proofs.Binary64.Magnitude

/-!
Signs of rounded results. Rounding never turns a sign around, so a product or quotient has the sign
that the factors give it, or is zero.
-/
namespace ActivityBoard.Binary64

variable {x y : Binary64} {q : ℚ}

theorem value_nonneg_of_not_negative (h : x.negative = false) : 0 ≤ x.value := by
  cases x with
  | finite s m e hc =>
    cases h
    exact mul_nonneg (Nat.cast_nonneg m) (zpow_pos two_pos e).le
  | _ => exact le_rfl

theorem value_eq_signed (x : Binary64) :
    x.value = if x.negative then -|x.value| else |x.value| := by
  obtain _ | _ | ⟨_ | _, m, e, h⟩ := x
  · rfl
  · split <;> simp [value]
  · rw [abs_value_finite]
    rfl
  · rw [abs_value_finite]
    rfl

theorem negative_eq (hne : x.value ≠ 0) : x.negative = decide (x.value < 0) := by
  have hpos := abs_pos.2 hne
  have hsigned := value_eq_signed x
  cases h : x.negative with
  | false =>
    rw [h, if_neg Bool.false_ne_true] at hsigned
    rw [hsigned, eq_comm, decide_eq_false_iff_not]
    exact hpos.not_gt
  | true =>
    rw [h, if_pos rfl] at hsigned
    rw [hsigned, eq_comm, decide_eq_true_iff]
    exact neg_neg_of_pos hpos

theorem negative_of_value_pos (h : 0 < x.value) : x.negative = false := by
  rw [negative_eq h.ne', decide_eq_false h.not_gt]

theorem negative_assemble (negative : Bool) (m : ℕ) (e : ℤ) :
    (assemble negative m e).negative = negative := by
  rw [assemble]
  split <;> rfl

theorem negative_round (hq : q ≠ 0) (negative : Bool) :
    (round q negative).negative = decide (q < 0) := by
  obtain hneg | hpos := hq.lt_or_gt
  · rw [round_of_neg hneg, decide_eq_true hneg, roundMagnitude]
    split <;> exact negative_assemble ..
  · rw [round_of_pos hpos, decide_eq_false hpos.not_gt, roundMagnitude]
    split <;> exact negative_assemble ..

theorem negative_round_of_nonneg (h : 0 ≤ q) : (round q false).negative = false := by
  obtain rfl | hpos := h.eq_or_lt
  · rw [round_zero]
    exact negative_assemble false _ _
  · rw [negative_round hpos.ne', decide_eq_false hpos.not_gt]

theorem value_round_nonpos (h : q ≤ 0) (negative : Bool) : (round q negative).value ≤ 0 := by
  obtain rfl | hneg := h.eq_or_lt
  · rw [round_zero, zero_eq]
    cases negative <;> simp [value]
  · have hpos := value_round_nonneg (neg_nonneg.2 h) negative
    rw [← neg_round hneg.ne negative negative, value_neg] at hpos
    linarith

theorem value_mul_mul_nonneg {r : ℚ} (hx : x.isFinite = true) (hy : y.isFinite = true)
    (hpos : 0 ≤ y.value) (h : 0 ≤ x.value * r) : 0 ≤ (x * y).value * r := by
  rw [mul_of_finite hx hy]
  obtain ⟨hxs, hr⟩ | ⟨hxs, hr⟩ := mul_nonneg_iff.1 h
  · exact mul_nonneg (value_round_nonneg (mul_nonneg hxs hpos) _) hr
  · exact mul_nonneg_of_nonpos_of_nonpos
      (value_round_nonpos (mul_nonpos_of_nonpos_of_nonneg hxs hpos) _) hr

/-- Where the quotient is no number or is infinite its value counts as zero. -/
theorem value_div_nonneg (h : 0 ≤ x.value * y.value) : 0 ≤ (x / y).value := by
  cases x with
  | nan => exact le_rfl
  | infinity s => cases y <;> exact le_rfl
  | finite s m e hx =>
    cases y with
    | nan => exact le_rfl
    | infinity t =>
      have hzero : (finite s m e hx / infinity t).value = (round 0 (s ^^ t)).value := by
        rw [round_zero]
        rfl
      rw [hzero]
      exact value_round_nonneg le_rfl _
    | finite t n f hy =>
      by_cases hne : value (.finite t n f hy) = 0
      · have hzero : isZero (.finite t n f hy) = true := (isZero_iff rfl).2 hne
        change 0 ≤ value (if isZero (.finite t n f hy) then _ else _)
        rw [if_pos hzero]
        split <;> exact le_rfl
      · rw [div_of_finite rfl rfl hne]
        exact value_round_nonneg (div_nonneg_iff.2 (mul_nonneg_iff.1 h)) _

theorem value_ofInt_nonneg {n : ℤ} (h : 0 ≤ n) : 0 ≤ (ofInt n).value :=
  value_round_nonneg (by exact_mod_cast h) _

theorem value_ofInt_nonpos {n : ℤ} (h : n ≤ 0) : (ofInt n).value ≤ 0 :=
  value_round_nonpos (by exact_mod_cast h) _

theorem value_ofInt_mul_nonneg {m n : ℤ} (h : 0 ≤ m * n) :
    0 ≤ (ofInt m).value * (ofInt n).value := by
  obtain ⟨hm, hn⟩ | ⟨hm, hn⟩ := mul_nonneg_iff.1 h
  · exact mul_nonneg (value_ofInt_nonneg hm) (value_ofInt_nonneg hn)
  · exact mul_nonneg_of_nonpos_of_nonpos (value_ofInt_nonpos hm) (value_ofInt_nonpos hn)

end ActivityBoard.Binary64
