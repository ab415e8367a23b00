import ActivityBoard.Proofs.Binary64.Closest

/-!
Rounding keeps the order of all rationals, of whatever sign, as long as the results are finite; so
do the product with a number that is not negative and the quotient by one that is positive.
-/
namespace ActivityBoard.Binary64

variable {x y c : Binary64} {q r : ℚ} {s t : Bool}

section Rounded

theorem value_round_neg (hq : q ≠ 0) (s t : Bool) : (round (-q) t).value = -(round q s).value := by
  rw [← neg_round hq s t, value_neg]

theorem isFinite_round_neg (hq : q ≠ 0) (s t : Bool) :
    (round (-q) t).isFinite = (round q s).isFinite := by
  rw [← neg_round hq s t, isFinite_neg]

theorem value_round_mono_of_pos (hq : 0 < q) (h : q ≤ r) (hfq : (round q s).isFinite = true)
    (hfr : (round r t).isFinite = true) : (round q s).value ≤ (round r t).value := by
  rw [value_round_of_finite hq hfq, value_round_of_finite (hq.trans_le h) hfr]
  exact nearest_mono hq h

theorem value_round_mono (h : q ≤ r) (hfq : (round q s).isFinite = true)
    (hfr : (round r t).isFinite = true) : (round q s).value ≤ (round r t).value := by
  obtain hq | hq := lt_or_ge 0 q
  · exact value_round_mono_of_pos hq h hfq hfr
  · obtain hr | hr := lt_or_ge r 0
    · -- Below zero the magnitudes stand the other way round.
      have hneg := value_round_mono_of_pos (s := t) (t := s) (neg_pos.2 hr) (neg_le_neg h)
        ((isFinite_round_neg hr.ne t t).trans hfr)
        ((isFinite_round_neg (h.trans_lt hr).ne s s).trans hfq)
      rw [value_round_neg hr.ne t t, value_round_neg (h.trans_lt hr).ne s s] at hneg
      exact neg_le_neg_iff.1 hneg
    · exact (value_round_nonpos hq s).trans (value_round_nonneg hr t)

end Rounded

section Operations

theorem abs_value_lt_two_zpow (hx : x.isFinite = true) : |x.value| < 2 ^ (1024 : ℤ) := by
  cases x with
  | finite s m e h =>
    rw [abs_value_finite]
    obtain ⟨hm, -, he, -⟩ := h
    calc (m * 2 ^ e : ℚ) < (2 * leadingBit : ℕ) * 2 ^ e :=
          mul_lt_mul_of_pos_right (by exact_mod_cast hm) (zpow_pos two_pos e)
      _ ≤ (2 * leadingBit : ℕ) * 2 ^ (971 : ℤ) :=
          mul_le_mul_of_nonneg_left (zpow_le_zpow_right₀ one_le_two he) (Nat.cast_nonneg _)
      _ = 2 ^ (1024 : ℤ) := by
          rw [← two_zpow_sub_mul 1024 971]
          norm_num
  | _ => cases hx

theorem isFinite_of_value_ne_zero (h : x.value ≠ 0) : x.isFinite = true := by
  cases x with
  | finite => rfl
  | _ => exact absurd rfl h

theorem isFinite_div (hx : x.isFinite = true) (h : 2 ≤ c.value) : (x / c).isFinite = true := by
  have hpos : 0 < c.value := two_pos.trans_le h
  rw [div_of_finite hx (isFinite_of_value_ne_zero hpos.ne') hpos.ne']
  refine (within_round (k := 1023) ?_ (by decide) _).finite
  rw [abs_div, abs_of_pos hpos, div_le_iff₀ hpos]
  calc |x.value| ≤ 2 ^ (1023 + 1 : ℤ) := (abs_value_lt_two_zpow hx).le
    _ = 2 ^ (1023 : ℤ) * 2 := zpow_add_one₀ two_ne_zero 1023
    _ ≤ 2 ^ (1023 : ℤ) * c.value := mul_le_mul_of_nonneg_left h (zpow_pos two_pos _).le

theorem value_div_mono (hx : x.isFinite = true) (hy : y.isFinite = true) (h0 : 0 < c.value)
    (hfx : (x / c).isFinite = true) (hfy : (y / c).isFinite = true) (h : x.value ≤ y.value) :
    (x / c).value ≤ (y / c).value := by
  have hc := isFinite_of_value_ne_zero h0.ne'
  rw [div_of_finite hx hc h0.ne'] at hfx ⊢
  rw [div_of_finite hy hc h0.ne'] at hfy ⊢
  exact value_round_mono (div_le_div_of_nonneg_right h h0.le) hfx hfy

theorem value_mul_mono (hx : x.isFinite = true) (hy : y.isFinite = true) (hc : c.isFinite = true)
    (h0 : 0 ≤ c.value) (hfx : (x * c).isFinite = true) (hfy : (y * c).isFinite = true)
    (h : x.value ≤ y.value) : (x * c).value ≤ (y * c).value := by
  rw [mul_of_finite hx hc] at hfx ⊢
  rw [mul_of_finite hy hc] at hfy ⊢
  exact value_round_mono (mul_le_mul_of_nonneg_right h h0) hfx hfy

theorem isFinite_of_mul (hc : c.isFinite = true) (h : (x * c).isFinite = true) :
    x.isFinite = true := by
  cases x with
  | finite => rfl
  | nan => cases h
  | infinity s =>
    cases c with
    | finite t m e hm =>
      change (if (finite t m e hm).isZero then nan else infinity (s ^^ t)).isFinite = true at h
      split at h <;> cases h
    | _ => cases hc

theorem isFinite_of_div (hc : c.isFinite = true) (h : (x / c).isFinite = true) :
    x.isFinite = true := by
  cases x with
  | finite => rfl
  | nan => cases h
  | infinity s =>
    cases c with
    | finite => cases h
    | _ => cases hc

end Operations

section Nonnegative

theorem zero_le_iff : 0 ≤ x ↔ x = .infinity false ∨ x.isFinite = true ∧ 0 ≤ x.value := by
  have hzero : (0 : Binary64).value = 0 := by decide +kernel
  cases x with
  | nan => simp [isFinite]; decide
  | infinity s => cases s <;> simp [isFinite] <;> decide
  | finite s m e h =>
    change decide ((0 : Binary64).value ≤ _) = true ↔ _
    rw [hzero, decide_eq_true_iff]
    exact ⟨fun h0 => .inr ⟨rfl, h0⟩, fun h0 => h0.elim (fun he => by cases he) And.right⟩

theorem zero_le_trans (h0 : 0 ≤ x) (h : x ≤ y) : 0 ≤ y := by
  rw [zero_le_iff] at h0 ⊢
  obtain rfl | ⟨hx, hv⟩ := h0
  · cases y with
    | infinity s =>
      cases s with
      | false => exact .inl rfl
      | true => cases h
    | _ => cases h
  · cases x with
    | finite s m e hm =>
      cases y with
      | nan => cases h
      | infinity t =>
        cases t with
        | false => exact .inl rfl
        | true => cases h
      | finite t n f hn => exact .inr ⟨rfl, hv.trans (of_decide_eq_true h)⟩
    | _ => cases hx

theorem zero_le_round (h : 0 ≤ q) (s : Bool) : 0 ≤ round q s := by
  rw [zero_le_iff]
  obtain rfl | hpos := h.eq_or_lt
  · exact .inr ⟨by rw [round_zero]; exact (within_zero s 0).finite, value_round_nonneg le_rfl s⟩
  · have hround := round_of_pos hpos s
    obtain hinfinity | ⟨hfinite, -⟩ := roundMagnitude_cases false q
    · exact .inl (hround.trans hinfinity)
    · exact .inr ⟨by rwa [hround], value_round_nonneg h s⟩

theorem zero_le_mul (hx : 0 ≤ x) (h : 0 < c.value) : 0 ≤ x * c := by
  have hc := isFinite_of_value_ne_zero h.ne'
  obtain rfl | ⟨hx, hv⟩ := zero_le_iff.1 hx
  · have hnegative := negative_of_value_pos h
    have hzero : ¬ c.isZero = true := fun hz => h.ne' ((isZero_iff hc).1 hz)
    cases c with
    | finite t m e hm =>
      cases hnegative
      exact zero_le_iff.2 (.inl (if_neg hzero))
    | _ => cases hc
  · rw [mul_of_finite hx hc]
    exact zero_le_round (mul_nonneg hv h.le) _

theorem zero_le_div (hx : 0 ≤ x) (h : 0 < c.value) : 0 ≤ x / c := by
  have hc := isFinite_of_value_ne_zero h.ne'
  obtain rfl | ⟨hx, hv⟩ := zero_le_iff.1 hx
  · have hnegative := negative_of_value_pos h
    cases c with
    | finite t m e hm =>
      cases hnegative
      exact zero_le_iff.2 (.inl rfl)
    | _ => cases hc
  · rw [div_of_finite hx hc h.ne']
    exact zero_le_round (div_nonneg hv h.le) _

theorem integerPart_nonneg (h : 0 ≤ q) : 0 ≤ integerPart q := by
  rw [integerPart, if_neg h.not_gt]
  exact Int.floor_nonneg.2 h

theorem integerPart_mono (h0 : 0 ≤ q) (h : q ≤ r) : integerPart q ≤ integerPart r := by
  rw [integerPart, if_neg h0.not_gt, integerPart, if_neg (h0.trans h).not_gt]
  exact Rat.floor_monotone h

theorem toIntWithin_of_finite {low high : ℤ} (hx : x.isFinite = true) :
    x.toIntWithin low high = max low (min high (integerPart x.value)) := by
  cases x with
  | finite => rfl
  | _ => cases hx

end Nonnegative

end ActivityBoard.Binary64
