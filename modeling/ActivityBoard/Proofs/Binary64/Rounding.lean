import ActivityBoard.Binary64.Arithmetic
import Mathlib.Data.Rat.Floor
import Mathlib.Data.Int.Log
import Mathlib.Tactic.Linarith
import Mathlib.Tactic.NormNum

/-!
Rounding to binary64: what lies on the grid of the last place is kept, what lies past the greatest
number becomes infinite, and what lies below half of the least one becomes zero.
-/
namespace ActivityBoard.Binary64

variable {q : ℚ} {k : ℤ}

theorem two_zpow_sub_mul (a b : ℤ) : (2 : ℚ) ^ (a - b) * 2 ^ b = 2 ^ a := by
  rw [← zpow_add₀ two_ne_zero, sub_add_cancel]

theorem guess_bounds (hq : 0 < q) :
    (2 : ℚ) ^ ((q.num.toNat.log2 : ℤ) - q.den.log2 - 1) < q ∧
      q < (2 : ℚ) ^ ((q.num.toNat.log2 : ℤ) - q.den.log2 + 1) := by
  have hnum : 0 < q.num := Rat.num_pos.2 hq
  have hn : (q.num.toNat : ℚ) = q.num := by
    exact_mod_cast Int.toNat_of_nonneg hnum.le
  have hn0 : q.num.toNat ≠ 0 := by omega
  have hnlow : ((2 : ℚ) ^ (q.num.toNat.log2 : ℤ)) ≤ q.num.toNat := by
    exact_mod_cast Nat.log2_self_le hn0
  have hnhigh : (q.num.toNat : ℚ) < (2 : ℚ) ^ ((q.num.toNat.log2 : ℤ) + 1) := by
    exact_mod_cast Nat.lt_log2_self
  have hdlow : ((2 : ℚ) ^ (q.den.log2 : ℤ)) ≤ q.den := by
    exact_mod_cast Nat.log2_self_le q.den_nz
  have hdhigh : (q.den : ℚ) < (2 : ℚ) ^ ((q.den.log2 : ℤ) + 1) := by
    exact_mod_cast Nat.lt_log2_self
  have hquot : (q.num.toNat : ℚ) / q.den = q := by
    rw [hn]
    exact Rat.num_div_den q
  have hd : (0 : ℚ) < q.den := by exact_mod_cast q.den_pos
  -- The numerator lies between `2^a` and `2^(a+1)`, the denominator between `2^b` and `2^(b+1)`.
  generalize q.num.toNat.log2 = a at *
  generalize q.den.log2 = b at *
  rw [← hquot, lt_div_iff₀ hd, div_lt_iff₀ hd]
  constructor
  · calc (2 : ℚ) ^ ((a : ℤ) - b - 1) * q.den < 2 ^ ((a : ℤ) - b - 1) * 2 ^ ((b : ℤ) + 1) :=
          mul_lt_mul_of_pos_left hdhigh (zpow_pos two_pos _)
      _ = 2 ^ (a : ℤ) := by rw [sub_sub, two_zpow_sub_mul]
      _ ≤ q.num.toNat := hnlow
  · calc (q.num.toNat : ℚ) < 2 ^ ((a : ℤ) + 1) := hnhigh
      _ = 2 ^ ((a : ℤ) - b + 1) * 2 ^ (b : ℤ) := by
          rw [sub_add_eq_add_sub, two_zpow_sub_mul]
      _ ≤ 2 ^ ((a : ℤ) - b + 1) * q.den := mul_le_mul_of_nonneg_left hdlow (zpow_pos two_pos _).le

theorem log2_eq_log (hq : 0 < q) : log2 q = Int.log 2 q := by
  obtain ⟨hlow, hhigh⟩ := guess_bounds hq
  rw [log2]
  generalize (q.num.toNat.log2 : ℤ) - q.den.log2 = guess at hlow hhigh ⊢
  -- The guess is the logarithm or one more than it, and the comparison tells which.
  have hle := (Int.zpow_le_iff_le_log one_lt_two hq).1 hlow.le
  have hlt := (Int.lt_zpow_iff_log_lt one_lt_two hq).1 hhigh
  split
  · rename_i hbelow
    have := (Int.lt_zpow_iff_log_lt one_lt_two hq).1 hbelow
    omega
  · rename_i habove
    have := (Int.zpow_le_iff_le_log one_lt_two hq).1 (not_lt.1 habove)
    omega

theorem log2_lt_iff (hq : 0 < q) : log2 q < k ↔ q < 2 ^ k := by
  rw [log2_eq_log hq]
  exact (Int.lt_zpow_iff_log_lt one_lt_two hq).symm

theorem le_log2_iff (hq : 0 < q) : k ≤ log2 q ↔ 2 ^ k ≤ q := by
  rw [log2_eq_log hq]
  exact (Int.zpow_le_iff_le_log one_lt_two hq).symm

theorem floor_natCast (n : ℕ) : (n : ℚ).floor = n := Int.floor_natCast (R := ℚ) n

theorem nearestEven_natCast (n : ℕ) : nearestEven n = n := by
  have hhalf : (0 : ℚ) < 1 / 2 := by norm_num
  rw [nearestEven, floor_natCast, Int.toNat_natCast]
  simp only [sub_self, if_pos hhalf]

theorem nearestEven_eq_zero (h0 : 0 ≤ q) (h : q < 1 / 2) : nearestEven q = 0 := by
  have hfloor : q.floor = 0 := Int.floor_eq_zero_iff.2 ⟨h0, h.trans (by norm_num)⟩
  rw [nearestEven, hfloor]
  simp only [Int.toNat_zero, Nat.cast_zero, sub_zero, if_pos h]

theorem not_canonical_of_lt {m : ℕ} {e : ℤ} (h : 971 < e) : ¬ Canonical m e := by
  rintro ⟨-, -, hhigh, -⟩
  omega

theorem roundMagnitude_eq_infinity (negative : Bool) (h : 2 ^ (1024 : ℤ) ≤ q) :
    roundMagnitude negative q = .infinity negative := by
  have hq : 0 < q := (zpow_pos two_pos _).trans_le h
  have hlog : 1024 ≤ log2 q := (le_log2_iff hq).2 h
  have hplace : 971 < lastPlace q := by
    rw [lastPlace]
    omega
  rw [roundMagnitude]
  split
  · exact dif_neg (not_canonical_of_lt (by omega))
  · exact dif_neg (not_canonical_of_lt hplace)

theorem canonical_zero : Canonical 0 (-1074) := by decide

theorem roundMagnitude_eq_zero (negative : Bool) (hq : 0 < q) (h : q < 2 ^ (-1075 : ℤ)) :
    roundMagnitude negative q = zero negative := by
  have hlog : log2 q < -1075 := (log2_lt_iff hq).2 h
  have hplace : lastPlace q = -1074 := by
    rw [lastPlace]
    omega
  have hscaled : q * 2 ^ (1074 : ℤ) < 1 / 2 := by
    calc q * 2 ^ (1074 : ℤ) < 2 ^ (-1075 : ℤ) * 2 ^ (1074 : ℤ) :=
          mul_lt_mul_of_pos_right h (zpow_pos two_pos _)
      _ = 1 / 2 := by
          rw [← zpow_add₀ two_ne_zero]
          norm_num
  have hnearest : nearestEven (q * 2 ^ (1074 : ℤ)) = 0 :=
    nearestEven_eq_zero (mul_nonneg hq.le (zpow_pos two_pos _).le) hscaled
  rw [roundMagnitude, hplace, neg_neg, hnearest]
  rfl

theorem lastPlace_of_canonical {m : ℕ} {e : ℤ} (h : Canonical m e) (hm : 0 < m) :
    lastPlace (m * 2 ^ e) = e := by
  obtain ⟨hhigh, hleast, -, hfull⟩ := h
  have hpos : (0 : ℚ) < m * 2 ^ e := mul_pos (by exact_mod_cast hm) (zpow_pos two_pos _)
  have hlt : log2 (m * 2 ^ e) < e + 53 := by
    rw [log2_lt_iff hpos, add_comm, zpow_add₀ two_ne_zero]
    apply mul_lt_mul_of_pos_right _ (zpow_pos two_pos _)
    exact_mod_cast hhigh
  have hge : leadingBit ≤ m → e + 52 ≤ log2 (m * 2 ^ e) := by
    intro hbit
    rw [le_log2_iff hpos, add_comm, zpow_add₀ two_ne_zero]
    apply mul_le_mul_of_nonneg_right _ (zpow_pos two_pos _).le
    exact_mod_cast hbit
  rw [lastPlace]
  omega

theorem roundMagnitude_of_canonical (negative : Bool) {m : ℕ} {e : ℤ} (h : Canonical m e)
    (hm : 0 < m) : roundMagnitude negative (m * 2 ^ e) = .finite negative m e h := by
  have hscaled : (m * 2 ^ e : ℚ) * 2 ^ (-e) = m := by
    rw [mul_assoc, ← zpow_add₀ two_ne_zero, add_neg_cancel, zpow_zero, mul_one]
  rw [roundMagnitude, lastPlace_of_canonical h hm, hscaled, nearestEven_natCast,
    if_neg h.1.ne, assemble, dif_pos h]

theorem eq_of_canonical_zero {e : ℤ} (h : Canonical 0 e) : e = -1074 := by
  obtain ⟨-, -, -, hbit | he⟩ := h
  · exact absurd hbit (by decide)
  · exact he

theorem zero_eq (negative : Bool) : zero negative = .finite negative 0 (-1074) canonical_zero := by
  rw [zero, assemble, dif_pos canonical_zero]

theorem finite_zero (negative : Bool) {e : ℤ} (h : Canonical 0 e) :
    .finite negative 0 e h = zero negative := by
  obtain rfl := eq_of_canonical_zero h
  exact (zero_eq negative).symm

theorem round_zero (negative : Bool) : round 0 negative = zero negative := if_pos rfl

theorem round_of_pos (hq : 0 < q) (negative : Bool) :
    round q negative = roundMagnitude false q := by
  rw [round, if_neg hq.ne', if_neg hq.not_gt]

theorem round_of_neg (hq : q < 0) (negative : Bool) :
    round q negative = roundMagnitude true (-q) := by
  rw [round, if_neg hq.ne, if_pos hq]

theorem neg_assemble (negative : Bool) (m : ℕ) (e : ℤ) :
    (assemble negative m e).neg = assemble (!negative) m e := by
  rw [assemble, assemble]
  split <;> rfl

theorem neg_roundMagnitude (negative : Bool) (q : ℚ) :
    (roundMagnitude negative q).neg = roundMagnitude (!negative) q := by
  rw [roundMagnitude, roundMagnitude]
  split <;> exact neg_assemble ..

theorem neg_round (hq : q ≠ 0) (s t : Bool) : (round q s).neg = round (-q) t := by
  obtain hneg | hpos := hq.lt_or_gt
  · rw [round_of_neg hneg, round_of_pos (neg_pos.2 hneg)]
    exact neg_roundMagnitude true (-q)
  · rw [round_of_pos hpos, round_of_neg (neg_neg_of_pos hpos), neg_neg]
    exact neg_roundMagnitude false q

/-- A number is what its value rounds to. -/
theorem round_value {x : Binary64} (hx : x.isFinite = true) : round x.value x.negative = x := by
  obtain _ | _ | ⟨s, m, e, h⟩ := x
  · cases hx
  · cases hx
  · obtain rfl | hm := Nat.eq_zero_or_pos m
    · have hvalue : value (.finite s 0 e h) = 0 := by cases s <;> simp [value]
      rw [hvalue, round_zero, finite_zero]
      exact (finite_zero s h).symm ▸ rfl
    · have hpos : (0 : ℚ) < m * 2 ^ e := mul_pos (by exact_mod_cast hm) (zpow_pos two_pos _)
      cases s with
      | false =>
        rw [value, round_of_pos hpos]
        exact roundMagnitude_of_canonical false h hm
      | true =>
        rw [value, round_of_neg (neg_lt_zero.2 hpos), neg_neg]
        exact roundMagnitude_of_canonical true h hm

theorem lt_two_pow_log2 (n : ℕ) : (n : ℚ) < 2 ^ ((n.log2 : ℤ) + 1) := by
  exact_mod_cast Nat.lt_log2_self

theorem two_pow_le_of_lt {c : ℕ} {e : ℤ} (hc : c ≠ 0) (he : 310 < e) :
    (2 : ℚ) ^ (1024 : ℤ) ≤ c * 10 ^ e := by
  have hone : (1 : ℚ) ≤ c := by exact_mod_cast Nat.one_le_iff_ne_zero.2 hc
  have hpow : 2 ^ 1024 ≤ 10 ^ 311 := by decide +kernel
  calc (2 : ℚ) ^ (1024 : ℤ) ≤ 10 ^ (311 : ℤ) := by exact_mod_cast hpow
    _ ≤ 10 ^ e := zpow_le_zpow_right₀ (by norm_num) (by omega)
    _ ≤ c * 10 ^ e := le_mul_of_one_le_left (zpow_pos (by norm_num) _).le hone

theorem lt_two_pow_of_lt {c : ℕ} {e : ℤ} (he : e < -(325 + c.log2 : ℤ)) :
    (c * 10 ^ e : ℚ) < 2 ^ (-1075 : ℤ) := by
  have hten : (0 : ℚ) < 10 ^ e := zpow_pos (by norm_num) _
  have htwo : (2 : ℚ) ^ ((c.log2 : ℤ) + 1) ≤ 10 ^ ((c.log2 : ℤ) + 1) :=
    zpow_le_zpow_left₀ (by omega) two_pos.le (by norm_num)
  have hpow : 2 ^ 1075 < 10 ^ 325 := by decide +kernel
  calc (c * 10 ^ e : ℚ) < 2 ^ ((c.log2 : ℤ) + 1) * 10 ^ e :=
        mul_lt_mul_of_pos_right (lt_two_pow_log2 c) hten
    _ ≤ 10 ^ ((c.log2 : ℤ) + 1) * 10 ^ e := mul_le_mul_of_nonneg_right htwo hten.le
    _ = 10 ^ ((c.log2 : ℤ) + 1 + e) := (zpow_add₀ (by norm_num) _ _).symm
    _ ≤ 10 ^ (-325 : ℤ) := zpow_le_zpow_right₀ (by norm_num) (by omega)
    _ < 2 ^ (-1075 : ℤ) := by
        rw [zpow_neg, zpow_neg]
        apply inv_strictAnti₀ (zpow_pos two_pos _)
        exact_mod_cast hpow

/-- The guards of `ofDecimal` change nothing. -/
theorem ofDecimal_eq_round (c : ℕ) (e : ℤ) : ofDecimal c e = round (c * 10 ^ e) false := by
  rw [ofDecimal]
  split
  · rename_i hc
    rw [hc, Nat.cast_zero, zero_mul, round_zero]
  · rename_i hc
    have hpos : (0 : ℚ) < c * 10 ^ e :=
      mul_pos (by exact_mod_cast Nat.pos_of_ne_zero hc) (zpow_pos (by norm_num) _)
    split
    · rename_i he
      rw [round_of_pos hpos, roundMagnitude_eq_infinity false (two_pow_le_of_lt hc he)]
    · split
      · rename_i he
        rw [round_of_pos hpos, roundMagnitude_eq_zero false hpos (lt_two_pow_of_lt he)]
      · rfl

end ActivityBoard.Binary64
