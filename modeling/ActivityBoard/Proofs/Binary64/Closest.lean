import ActivityBoard.Proofs.Binary64.Sign
import Mathlib.Tactic.Ring

/-!
Rounding takes the closest number: none lies nearer to a positive rational than what the rational is
rounded to. So rounding keeps the order, what is a number remains, and what is not too small changes
by a part in `2^53` at most.
-/
namespace ActivityBoard.Binary64

variable {q r : ℚ} {m n : ℕ} {e k : ℤ}

section Integers

theorem abs_nearestEven_sub_le (h : 0 ≤ q) : |(nearestEven q : ℚ) - q| ≤ 1 / 2 := by
  have hfloor : ((q.floor.toNat : ℕ) : ℚ) = q.floor := by
    exact_mod_cast Int.toNat_of_nonneg (Int.floor_nonneg.2 h)
  have hlow : (q.floor : ℚ) ≤ q := Int.floor_le q
  have hhigh : q < q.floor + 1 := Int.lt_floor_add_one q
  rw [nearestEven, abs_le]
  generalize q.floor.toNat = below at *
  split
  · rename_i hrest
    constructor <;> linarith
  · rename_i hrest
    split
    · push_cast
      constructor <;> linarith
    · -- At a half both neighbours are as near.
      have hparity : ((below % 2 : ℕ) : ℚ) ≤ 1 := by
        exact_mod_cast Nat.lt_succ_iff.1 (Nat.mod_lt below two_pos)
      have hparity' : (0 : ℚ) ≤ (below % 2 : ℕ) := Nat.cast_nonneg _
      push_cast at *
      constructor <;> linarith

theorem le_of_abs_sub_le_half {a b : ℤ} (ha : |a - q| ≤ 1 / 2) (hb : |b - r| ≤ 1 / 2)
    (h : q < r) : a ≤ b := by
  have hqa := (abs_le.1 ha).2
  have hrb := (abs_le.1 hb).1
  have hlt : (a : ℚ) < b + 1 := by linarith
  exact Int.lt_add_one_iff.1 (by exact_mod_cast hlt)

theorem abs_nearestEven_sub_le_abs (h : 0 ≤ q) (a : ℤ) : |(nearestEven q : ℚ) - q| ≤ |a - q| := by
  by_contra hlt
  rw [not_le] at hlt
  have hhalf := abs_nearestEven_sub_le h
  -- Two integers that are both less than a half away, one of them strictly, are one.
  have hone : |(nearestEven q : ℚ) - a| < 1 := by
    calc |(nearestEven q : ℚ) - a| = |(nearestEven q - q) - (a - q)| := by ring_nf
      _ ≤ |(nearestEven q : ℚ) - q| + |a - q| := abs_sub _ _
      _ < 1 := by linarith
  have heq : (nearestEven q : ℤ) = a := by
    have hzero : |(nearestEven q : ℤ) - a| < 1 := by exact_mod_cast hone
    rw [Int.abs_lt_one_iff] at hzero
    omega
  rw [← heq] at hlt
  exact lt_irrefl _ hlt

theorem nearestEven_mono (h0 : 0 ≤ q) (h : q ≤ r) : nearestEven q ≤ nearestEven r := by
  obtain rfl | hlt := h.eq_or_lt
  · exact le_rfl
  · have hle := le_of_abs_sub_le_half (a := nearestEven q) (b := nearestEven r)
      (abs_nearestEven_sub_le h0) (abs_nearestEven_sub_le (h0.trans h)) hlt
    exact_mod_cast hle

end Integers

section Grid

theorem scaled_back (q : ℚ) (e : ℤ) : q * 2 ^ (-e) * 2 ^ e = q := by
  rw [mul_assoc, ← zpow_add₀ two_ne_zero, neg_add_cancel, zpow_zero, mul_one]

theorem abs_nearest_sub (q : ℚ) : |nearest q - q| =
    |(nearestEven (q * 2 ^ (-lastPlace q)) : ℚ) - q * 2 ^ (-lastPlace q)| * 2 ^ lastPlace q := by
  have hpow := zpow_pos (two_pos (α := ℚ)) (lastPlace q)
  have hunits : nearest q - q = (nearestEven (q * 2 ^ (-lastPlace q)) -
      q * 2 ^ (-lastPlace q)) * 2 ^ lastPlace q := by
    rw [sub_mul, scaled_back]
    rfl
  rw [hunits, abs_mul, abs_of_pos hpow]

theorem scaled_pos (hq : 0 < q) : 0 < q * 2 ^ (-lastPlace q) := mul_pos hq (zpow_pos two_pos _)

/-- Rounding changes a rational by half a unit of its last place at most. -/
theorem abs_nearest_sub_le_half (hq : 0 < q) : |nearest q - q| ≤ 2 ^ lastPlace q / 2 := by
  rw [abs_nearest_sub]
  calc _ ≤ 1 / 2 * 2 ^ lastPlace q :=
        mul_le_mul_of_nonneg_right (abs_nearestEven_sub_le (scaled_pos hq).le)
          (zpow_pos two_pos _).le
    _ = 2 ^ lastPlace q / 2 := by ring

theorem abs_nearest_sub_le_units (hq : 0 < q) (n : ℕ) :
    |nearest q - q| ≤ |n * 2 ^ lastPlace q - q| := by
  have hpow := zpow_pos (two_pos (α := ℚ)) (lastPlace q)
  have hunits : (n * 2 ^ lastPlace q - q : ℚ) =
      (n - q * 2 ^ (-lastPlace q)) * 2 ^ lastPlace q := by
    rw [sub_mul, scaled_back]
  rw [abs_nearest_sub, hunits, abs_mul, abs_of_pos hpow]
  exact mul_le_mul_of_nonneg_right (abs_nearestEven_sub_le_abs (scaled_pos hq).le n) hpow.le

theorem exists_units_mul (n : ℕ) (h : e ≤ k) : ∃ n' : ℕ, (n * 2 ^ k : ℚ) = n' * 2 ^ e := by
  obtain ⟨d, hd⟩ := exists_units h
  refine ⟨n * d, ?_⟩
  rw [hd]
  push_cast
  ring

theorem abs_nearest_sub_le_of_place (hq : 0 < q) (n : ℕ) (h : lastPlace q ≤ k) :
    |nearest q - q| ≤ |n * 2 ^ k - q| := by
  obtain ⟨n', hn'⟩ := exists_units_mul n h
  rw [hn']
  exact abs_nearest_sub_le_units hq n'

theorem lastPlace_mono (hq : 0 < q) (h : q ≤ r) : lastPlace q ≤ lastPlace r := by
  have hlog : log2 q ≤ log2 r :=
    (le_log2_iff (hq.trans_le h)).2 (((le_log2_iff hq).1 le_rfl).trans h)
  rw [lastPlace, lastPlace]
  omega

/-- No number lies nearer to a positive rational than what this is rounded to. -/
theorem abs_nearest_sub_le {x : Binary64} (hq : 0 < q) (hx : x.isFinite = true) :
    |nearest q - q| ≤ |(|x.value| - q)| := by
  obtain _ | _ | ⟨s, m, e, h⟩ := x
  · cases hx
  · cases hx
  rw [abs_value_finite]
  obtain hplace | hplace := le_or_gt (lastPlace q) e
  · exact abs_nearest_sub_le_of_place hq m hplace
  · -- Then the number is below a power of two that the rational reaches.
    have hleast := h.2.1
    have hlog : lastPlace q = log2 q - 52 := by
      rw [lastPlace] at hplace ⊢
      omega
    have hbelow : (m * 2 ^ e : ℚ) ≤ 2 ^ log2 q := by
      calc (m * 2 ^ e : ℚ) ≤ (2 * leadingBit : ℕ) * 2 ^ e :=
            mul_le_mul_of_nonneg_right (by exact_mod_cast h.1.le) (zpow_pos two_pos e).le
        _ = 2 ^ (53 + e) := by
            rw [zpow_add₀ two_ne_zero]
            norm_num
        _ ≤ 2 ^ log2 q := zpow_le_zpow_right₀ one_le_two (by omega)
    have hreached := (le_log2_iff hq).1 le_rfl
    have hpower := abs_nearest_sub_le_of_place hq 1 (k := log2 q) (by omega)
    rw [Nat.cast_one, one_mul, abs_of_nonpos (sub_nonpos.2 hreached)] at hpower
    rw [abs_of_nonpos (sub_nonpos.2 (hbelow.trans hreached))]
    linarith

theorem nearest_eq_of_place (hq : 0 < q) (h : lastPlace q ≤ k) (hn : q = n * 2 ^ k) :
    nearest q = q := by
  have hclose := abs_nearest_sub_le_of_place hq n h
  rw [← hn, sub_self, abs_zero] at hclose
  exact sub_eq_zero.1 (abs_nonpos_iff.1 hclose)

theorem nearest_abs_value {x : Binary64} (hx : x.isFinite = true) (hne : x.value ≠ 0) :
    nearest |x.value| = |x.value| := by
  have hclose := abs_nearest_sub_le (abs_pos.2 hne) hx
  rw [sub_self, abs_zero] at hclose
  exact sub_eq_zero.1 (abs_nonpos_iff.1 hclose)

theorem nearest_mono (hq : 0 < q) (h : q ≤ r) : nearest q ≤ nearest r := by
  have hr := hq.trans_le h
  obtain heq | hlt := (lastPlace_mono hq h).eq_or_lt
  · rw [nearest, nearest, heq]
    have hpow := zpow_pos (two_pos (α := ℚ))
    apply mul_le_mul_of_nonneg_right _ (hpow _).le
    have hscaled : q * 2 ^ (-lastPlace r) ≤ r * 2 ^ (-lastPlace r) :=
      mul_le_mul_of_nonneg_right h (hpow _).le
    exact_mod_cast nearestEven_mono (mul_nonneg hq.le (hpow _).le) hscaled
  · -- The greater one reaches a power of two that is above the other.
    have hlog : log2 q < log2 r ∧ -1074 ≤ log2 r := by
      rw [lastPlace, lastPlace] at hlt
      omega
    have hbelow : q ≤ 2 ^ log2 r := ((log2_lt_iff hq).1 hlog.1).le
    exact (nearest_le hq hbelow hlog.2).trans
      (le_nearest hr ((le_log2_iff hr).1 le_rfl) hlog.2)

/-- What is not below the least full significand changes by a part in `2^53` at most. -/
theorem abs_nearest_sub_le_mul (h : 2 ^ (-1022 : ℤ) ≤ q) :
    |nearest q - q| ≤ q * 2 ^ (-53 : ℤ) := by
  have hq : 0 < q := (zpow_pos two_pos _).trans_le h
  have hlog : -1022 ≤ log2 q := (le_log2_iff hq).2 h
  have hplace : lastPlace q = log2 q - 52 := by
    rw [lastPlace]
    omega
  calc |nearest q - q| ≤ 2 ^ (log2 q - 52) / 2 := by
        rw [← hplace]
        exact abs_nearest_sub_le_half hq
    _ = 2 ^ log2 q * 2 ^ (-53 : ℤ) := by
        rw [zpow_sub₀ two_ne_zero]
        norm_num
        ring
    _ ≤ q * 2 ^ (-53 : ℤ) :=
        mul_le_mul_of_nonneg_right ((le_log2_iff hq).1 le_rfl) (zpow_pos two_pos _).le

end Grid

section Steps

variable {x : Binary64} {step : ℚ}

theorem nearest_add_bounds (hx : x.isFinite = true) (hne : x.value ≠ 0) (h : 0 ≤ step) :
    |x.value| ≤ nearest (|x.value| + step) ∧ nearest (|x.value| + step) ≤ |x.value| + 2 * step := by
  have hpos := abs_pos.2 hne
  have hmono := nearest_mono hpos (le_add_of_nonneg_right h)
  rw [nearest_abs_value hx hne] at hmono
  have hclose := abs_nearest_sub_le (add_pos_of_pos_of_nonneg hpos h) hx
  rw [sub_add_cancel_left, abs_neg, abs_of_nonneg h] at hclose
  exact ⟨hmono, by linarith [(abs_le.1 hclose).2]⟩

theorem exists_eq_units (hx : x.isFinite = true) (hne : x.value ≠ 0) :
    ∃ m : ℕ, |x.value| = m * 2 ^ lastPlace |x.value| := by
  obtain _ | _ | ⟨s, m, e, h⟩ := x
  · cases hx
  · cases hx
  have hm : 0 < m := by
    rw [Nat.pos_iff_ne_zero]
    rintro rfl
    exact hne (by cases s <;> simp [value])
  rw [abs_value_finite, lastPlace_of_canonical h hm]
  exact ⟨m, rfl⟩

/-- A step of more than half a unit of the last place moves a number. -/
theorem lt_nearest_add (hx : x.isFinite = true) (hne : x.value ≠ 0) (h0 : 0 ≤ step)
    (h : 2 ^ lastPlace |x.value| < 2 * step) : |x.value| < nearest (|x.value| + step) := by
  have hpos := abs_pos.2 hne
  have hsum := add_pos_of_pos_of_nonneg hpos h0
  have hpow := zpow_pos (two_pos (α := ℚ)) (lastPlace |x.value|)
  obtain hplace | hplace := le_or_gt (lastPlace (|x.value| + step)) (lastPlace |x.value|)
  · -- The next number lies nearer than the old one.
    obtain ⟨m, hm⟩ := exists_eq_units hx hne
    have hnext := abs_nearest_sub_le_of_place hsum (m + 1) hplace
    have hgap : (((m + 1 : ℕ) : ℚ) * 2 ^ lastPlace |x.value| - (|x.value| + step)) =
        2 ^ lastPlace |x.value| - step := by
      push_cast
      rw [add_mul, one_mul, ← hm]
      ring
    have hless : |2 ^ lastPlace |x.value| - step| < step := abs_lt.2 ⟨by linarith, by linarith⟩
    rw [hgap] at hnext
    have hlow := (abs_lt.1 (hnext.trans_lt hless)).1
    linarith
  · -- The sum reaches a power of two that the number does not.
    have hlog : log2 |x.value| < log2 (|x.value| + step) ∧ -1074 ≤ log2 (|x.value| + step) := by
      rw [lastPlace, lastPlace] at hplace
      omega
    exact ((log2_lt_iff hpos).1 hlog.1).trans_le
      (le_nearest hsum ((le_log2_iff hsum).1 le_rfl) hlog.2)

/-- A step of less than half a unit of the last place is lost. -/
theorem nearest_add_eq (hx : x.isFinite = true) (hne : x.value ≠ 0) (h0 : 0 ≤ step)
    (h : 2 * step < 2 ^ lastPlace |x.value|) : nearest (|x.value| + step) = |x.value| := by
  have hpow := zpow_pos (two_pos (α := ℚ)) (lastPlace |x.value|)
  obtain ⟨m, hm⟩ := exists_eq_units hx hne
  obtain ⟨hlow, hhigh⟩ := nearest_add_bounds hx hne h0
  have hplace := lastPlace_mono (abs_pos.2 hne) (le_add_of_nonneg_right h0)
  obtain ⟨n, hn⟩ := exists_units_mul
    (nearestEven ((|x.value| + step) * 2 ^ (-lastPlace (|x.value| + step)))) hplace
  change nearest (|x.value| + step) = _ at hn
  -- Both are whole units of one place, less than one of them apart.
  rw [hn] at hlow hhigh ⊢
  generalize lastPlace |x.value| = e at *
  rw [hm] at hlow hhigh ⊢
  have hmn : (m : ℚ) ≤ n := le_of_mul_le_mul_right hlow hpow
  have hnm : (n : ℚ) < m + 1 := by
    apply lt_of_mul_lt_mul_right _ hpow.le
    linarith
  have heq : n = m := by
    have : m ≤ n := by exact_mod_cast hmn
    have : n < m + 1 := by exact_mod_cast hnm
    omega
  rw [heq]

end Steps

section Rounded

theorem abs_value_round (hq : q ≠ 0) (h : |q| ≤ 2 ^ (1023 : ℤ)) (negative : Bool) :
    (round q negative).isFinite = true ∧ |(round q negative).value| = nearest |q| := by
  obtain ⟨h0, -⟩ | ⟨hpos, s, hround⟩ := round_cases q negative
  · exact absurd h0 hq
  · have hfinite := isFinite_roundMagnitude s hpos h
    rw [hround]
    refine ⟨hfinite, ?_⟩
    obtain hinfinity | ⟨-, hvalue⟩ := roundMagnitude_cases s |q|
    · rw [hinfinity] at hfinite
      cases hfinite
    · exact hvalue

theorem value_round_of_finite {negative : Bool} (hq : 0 < q)
    (hf : (round q negative).isFinite = true) : (round q negative).value = nearest q := by
  rw [← abs_of_nonneg (value_round_nonneg hq.le negative)]
  rw [round_of_pos hq] at hf ⊢
  obtain hinfinity | ⟨-, hvalue⟩ := roundMagnitude_cases false q
  · rw [hinfinity] at hf
    cases hf
  · exact hvalue

theorem value_round_of_pos (hq : 0 < q) (h : q ≤ 2 ^ (1023 : ℤ)) (negative : Bool) :
    (round q negative).value = nearest q :=
  value_round_of_finite hq (abs_value_round hq.ne' (by rwa [abs_of_pos hq]) negative).1

theorem value_round_le_nearest (hq : 0 < q) (negative : Bool) :
    (round q negative).value ≤ nearest q := by
  rw [round_of_pos hq]
  obtain hinfinity | ⟨-, hvalue⟩ := roundMagnitude_cases false q
  · rw [hinfinity]
    exact mul_nonneg (Nat.cast_nonneg _) (zpow_pos two_pos _).le
  · exact (le_abs_self _).trans_eq hvalue

theorem value_round_le {x : Binary64} (hx : x.isFinite = true) (h0 : 0 ≤ q) (h : q ≤ x.value)
    (negative : Bool) : (round q negative).value ≤ x.value := by
  obtain rfl | hq := h0.eq_or_lt
  · exact (value_round_nonpos le_rfl negative).trans h
  · have hx0 := hq.trans_le h
    have hnearest := nearest_abs_value hx hx0.ne'
    rw [abs_of_pos hx0] at hnearest
    calc (round q negative).value ≤ nearest q := value_round_le_nearest hq negative
      _ ≤ nearest x.value := nearest_mono hq h
      _ = x.value := hnearest

end Rounded

end ActivityBoard.Binary64
