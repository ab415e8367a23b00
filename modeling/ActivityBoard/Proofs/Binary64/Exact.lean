import ActivityBoard.Proofs.Binary64.Integers
import ActivityBoard.Proofs.Binary64.Monotone

/-!
Results that need no rounding. Sums of integers are exact as long as they are numbers themselves,
and so is the greatest integer below a number. Neighbouring numbers stand a whole unit of the last
place apart.
-/
namespace ActivityBoard.Binary64

variable {x y : Binary64} {a b n : ℤ} {m : ℕ} {e k : ℤ}

section Integers

/-- The number is finite, and denotes the integer. -/
structure IsInt (x : Binary64) (n : ℤ) : Prop where
  finite : x.isFinite = true
  value_eq : x.value = n

theorem Representable.isInt_round (h : Representable n) (negative : Bool) :
    (round n negative).IsInt n := by
  obtain ⟨x, hx, hvalue⟩ := h
  obtain ⟨hfinite, hround⟩ := value_round_value hx negative
  rw [hvalue] at hfinite hround
  exact ⟨hfinite, hround⟩

theorem Representable.isInt_ofInt (h : Representable n) : (ofInt n).IsInt n :=
  h.isInt_round false

theorem representable_of_abs_lt (h : |n| < 2 * leadingBit) : Representable n := by
  obtain ⟨k, rfl | rfl⟩ := n.eq_nat_or_neg
  · rw [Nat.abs_cast] at h
    exact representable_of_lt (by exact_mod_cast h)
  · rw [abs_neg, Nat.abs_cast] at h
    exact (representable_of_lt (by exact_mod_cast h)).neg

theorem isInt_ofNat (h : m < 2 * leadingBit) : (ofNat m).IsInt m :=
  (representable_of_lt h).isInt_ofInt

theorem IsInt.neg (hx : x.IsInt a) : (-x).IsInt (-a) := by
  refine ⟨(isFinite_neg x).trans hx.finite, ?_⟩
  rw [Int.cast_neg, ← hx.value_eq]
  exact value_neg x

theorem IsInt.add (hx : x.IsInt a) (hy : y.IsInt b) (h : Representable (a + b)) :
    (x + y).IsInt (a + b) := by
  rw [add_of_finite hx.finite hy.finite, hx.value_eq, hy.value_eq, ← Int.cast_add]
  exact h.isInt_round _

theorem IsInt.sub (hx : x.IsInt a) (hy : y.IsInt b) (h : Representable (a - b)) :
    (x - y).IsInt (a - b) :=
  hx.add hy.neg h

end Integers

section Units

theorem exists_units_of_reaches (hx : x.isFinite = true) (h : 2 ^ k ≤ |x.value|) :
    ∃ n : ℤ, x.value = n * 2 ^ (k - 52) := by
  have hpos := (zpow_pos (two_pos (α := ℚ)) k).trans_le h
  have hplace : k - 52 ≤ lastPlace |x.value| := by
    have hlog := (le_log2_iff hpos).2 h
    rw [lastPlace]
    omega
  obtain ⟨m, hm⟩ := exists_eq_units hx (abs_pos.1 hpos)
  obtain ⟨m', hm'⟩ := exists_units_mul m hplace
  obtain hvalue | hvalue := eq_or_eq_neg_of_abs_eq (hm.trans hm')
  · exact ⟨m', hvalue⟩
  · refine ⟨-m', ?_⟩
    rw [hvalue, Int.cast_neg, neg_mul]
    rfl

theorem value_round_units (hm : m < 2 * leadingBit) (hlow : -1074 ≤ e) (hhigh : e ≤ 970)
    (negative : Bool) : (round (m * 2 ^ e) negative).isFinite = true ∧
      (round (m * 2 ^ e) negative).value = m * 2 ^ e := by
  obtain rfl | hpos := Nat.eq_zero_or_pos m
  · rw [Nat.cast_zero, zero_mul, round_zero, zero_eq]
    exact ⟨rfl, by cases negative <;> simp [value]⟩
  · have hq : (0 : ℚ) < m * 2 ^ e := mul_pos (by exact_mod_cast hpos) (zpow_pos two_pos e)
    have hlt : (m * 2 ^ e : ℚ) < 2 ^ (53 + e) := by
      rw [zpow_add₀ two_ne_zero]
      apply mul_lt_mul_of_pos_right _ (zpow_pos two_pos e)
      exact_mod_cast hm
    have hplace : lastPlace (m * 2 ^ e) ≤ e := by
      have hlog := (log2_lt_iff hq).2 hlt
      rw [lastPlace]
      omega
    have hrange : (m * 2 ^ e : ℚ) ≤ 2 ^ (1023 : ℤ) :=
      hlt.le.trans (zpow_le_zpow_right₀ one_le_two (by omega))
    have hfinite := (abs_value_round hq.ne' (by rwa [abs_of_pos hq]) negative).1
    rw [value_round_of_finite hq hfinite]
    exact ⟨hfinite, nearest_eq_of_place hq hplace rfl⟩

/-- A greater number is greater by a unit of the last place. -/
theorem add_unit_le (hx : x.isFinite = true) (hy : y.isFinite = true) (h0 : 0 < x.value)
    (h : x.value < y.value) : x.value + 2 ^ lastPlace x.value ≤ y.value := by
  have hpow := zpow_pos (two_pos (α := ℚ)) (lastPlace x.value)
  obtain ⟨m, hm⟩ := exists_eq_units hx h0.ne'
  obtain ⟨n, hn⟩ := exists_eq_units hy (h0.trans h).ne'
  rw [abs_of_pos h0] at hm
  rw [abs_of_pos (h0.trans h)] at hn
  -- Both are counted in units of the smaller one.
  obtain ⟨n', hn'⟩ := exists_units_mul n (lastPlace_mono h0 h.le)
  have hlt : (m : ℚ) < n' := by
    apply lt_of_mul_lt_mul_right _ hpow.le
    rwa [← hm, ← hn', ← hn]
  have hle : (m + 1 : ℚ) ≤ n' := by exact_mod_cast hlt
  calc x.value + 2 ^ lastPlace x.value = (m + 1) * 2 ^ lastPlace x.value := by
        rw [add_mul, one_mul, ← hm]
    _ ≤ n' * 2 ^ lastPlace x.value := mul_le_mul_of_nonneg_right hle hpow.le
    _ = y.value := by rw [← hn', ← hn]

theorem lt_units {q : ℚ} (hq : 0 < q) : q < 2 ^ (53 : ℤ) * 2 ^ lastPlace q := by
  rw [← zpow_add₀ two_ne_zero, ← log2_lt_iff hq, lastPlace]
  omega

/-- What is above a number by more than half a unit is rounded to a greater one. -/
theorem lt_value_round {q : ℚ} (hx : x.isFinite = true) (h0 : 0 < x.value)
    (h : 2 ^ lastPlace x.value < 2 * (q - x.value)) {negative : Bool}
    (hf : (round q negative).isFinite = true) : x.value < (round q negative).value := by
  have hpow := zpow_pos (two_pos (α := ℚ)) (lastPlace x.value)
  have hstep : 0 ≤ q - x.value := by linarith
  have hlt := lt_nearest_add hx h0.ne' hstep (by rwa [abs_of_pos h0])
  rw [abs_of_pos h0, add_sub_cancel] at hlt
  rwa [value_round_of_finite (by linarith) hf]

theorem value_one : (1 : Binary64).isFinite = true ∧ (1 : Binary64).value = 1 := by
  have hone := isInt_ofNat (m := 1) (by decide)
  exact ⟨hone.finite, by exact_mod_cast hone.value_eq⟩

theorem lastPlace_one : lastPlace 1 = -52 := by decide +kernel

/-- A number is above a smaller one by more than the part in `2^53` that a quotient next to one
loses. -/
theorem one_lt_div (hx : x.isFinite = true) (hy : y.isFinite = true) (h0 : 0 < y.value)
    (h : y.value < x.value) (hf : (x / y).isFinite = true) : 1 < (x / y).value := by
  have hpart : y.value * 2 ^ (-53 : ℤ) < 2 ^ lastPlace y.value := by
    have hlt := lt_units h0
    rw [zpow_neg, ← div_eq_mul_inv, div_lt_iff₀ (zpow_pos two_pos _), mul_comm]
    exact hlt
  have hquotient : 1 + 2 ^ (-53 : ℤ) < x.value / y.value := by
    rw [lt_div_iff₀ h0]
    calc (1 + 2 ^ (-53 : ℤ)) * y.value = y.value + y.value * 2 ^ (-53 : ℤ) := by ring
      _ < y.value + 2 ^ lastPlace y.value := by linarith
      _ ≤ x.value := add_unit_le hy hx h0 h
  have hunit : (2 : ℚ) ^ (-52 : ℤ) = 2 * 2 ^ (-53 : ℤ) := by norm_num
  rw [div_of_finite hx hy h0.ne'] at hf ⊢
  rw [← value_one.2]
  apply lt_value_round value_one.1 (by rw [value_one.2]; exact one_pos) _ hf
  rw [value_one.2, lastPlace_one, hunit]
  linarith

end Units

section Floor

/-- There is no binary place behind the point from `2^52` on. -/
theorem eq_intCast_or_lt (hx : x.isFinite = true) :
    (∃ n : ℤ, x.value = n) ∨ |x.value| < 2 ^ (52 : ℤ) := by
  obtain hlt | hle := lt_or_ge |x.value| (2 ^ (52 : ℤ))
  · exact .inr hlt
  · obtain ⟨n, hn⟩ := exists_units_of_reaches hx hle
    rw [sub_self, zpow_zero, mul_one] at hn
    exact .inl ⟨n, hn⟩

theorem abs_floor_le {q : ℚ} (h : |q| < 2 ^ (52 : ℤ)) : |⌊q⌋| ≤ 2 ^ 52 := by
  obtain ⟨hlow, hhigh⟩ := abs_lt.1 h
  rw [abs_le]
  constructor
  · exact Int.le_floor.2 (by push_cast; exact_mod_cast hlow.le)
  · exact_mod_cast (Int.floor_le q).trans hhigh.le

theorem representable_floor_value (hx : x.isFinite = true) : Representable ⌊x.value⌋ := by
  obtain ⟨n, hn⟩ | hlt := eq_intCast_or_lt hx
  · rw [hn, Int.floor_intCast]
    exact ⟨x, hx, hn⟩
  · exact representable_of_abs_lt ((abs_floor_le hlt).trans_lt (by norm_num))

theorem isInt_floor (hx : x.isFinite = true) : x.floor.IsInt ⌊x.value⌋ := by
  have hround := (representable_floor_value hx).isInt_round x.negative
  cases x with
  | finite => exact hround
  | _ => cases hx

end Floor

end ActivityBoard.Binary64
