import ActivityBoard.Proofs.Binary64.Rounding
import Mathlib.Algebra.Order.Field.Power

/-!
The integer part of a number, held within the bounds of a counter, passes through binary64
unchanged: either it is itself a number, or it is a bound and past the bound again once rounded.
-/
namespace ActivityBoard.Binary64

variable {x : Binary64} {n low high : ℤ}

/-- The integer is the value of some number. -/
def Representable (n : ℤ) : Prop := ∃ x : Binary64, x.isFinite = true ∧ x.value = n

theorem representable_of_canonical {m : ℕ} {e : ℤ} (h : Canonical m e) (hn : (m * 2 ^ e : ℚ) = n) :
    Representable n :=
  ⟨.finite false m e h, rfl, hn⟩

theorem Representable.neg (h : Representable n) : Representable (-n) := by
  obtain ⟨x, hx, hvalue⟩ := h
  refine ⟨x.neg, ?_, ?_⟩
  · cases x with
    | finite s m e h => rfl
    | _ => cases hx
  · rw [Int.cast_neg, ← hvalue]
    cases x with
    | finite s m e h => cases s <;> simp [Binary64.neg, value]
    | _ => cases hx

theorem representable_of_lt {k : ℕ} (h : k < 2 * leadingBit) : Representable k := by
  obtain rfl | hk := Nat.eq_zero_or_pos k
  · exact representable_of_canonical canonical_zero (by simp)
  · have hlow : 2 ^ k.log2 ≤ k := Nat.log2_self_le hk.ne'
    have hhigh : k < 2 ^ (k.log2 + 1) := Nat.lt_log2_self
    have hlog : k.log2 < 53 := (Nat.log2_lt hk.ne').2 h
    obtain ⟨shift, hshift⟩ : ∃ shift, k.log2 + shift = 52 := ⟨52 - k.log2, by omega⟩
    have hpow : 2 ^ k.log2 * 2 ^ shift = leadingBit := by
      rw [← pow_add, hshift]
      rfl
    have hcanonical : Canonical (k * 2 ^ shift) (-shift) := by
      refine ⟨?_, by omega, by omega, .inl ?_⟩
      · calc k * 2 ^ shift < 2 ^ (k.log2 + 1) * 2 ^ shift :=
              Nat.mul_lt_mul_of_pos_right hhigh (by positivity)
          _ = 2 * leadingBit := by rw [← hpow, pow_succ]; ring
      · exact hpow ▸ Nat.mul_le_mul_right _ hlow
    apply representable_of_canonical hcanonical
    push_cast
    rw [mul_assoc, zpow_neg, zpow_natCast, mul_inv_cancel₀ (by positivity), mul_one]

theorem representable_floor {m : ℕ} {e : ℤ} (h : Canonical m e) :
    Representable (m * 2 ^ e : ℚ).floor := by
  obtain he | he := le_or_gt 0 e
  · -- The value is itself an integer.
    apply representable_of_canonical h
    obtain ⟨k, rfl⟩ := Int.eq_ofNat_of_zero_le he
    have hcast : (m * 2 ^ (k : ℤ) : ℚ) = (m * 2 ^ k : ℕ) := by
      push_cast
      rfl
    rw [hcast, floor_natCast]
    rfl
  · -- The integer part has no more bits than the significand.
    have hpow : (2 : ℚ) ^ e ≤ 1 := zpow_le_one_of_nonpos₀ one_le_two he.le
    have hpos : (0 : ℚ) ≤ m * 2 ^ e := by positivity
    have hlt : (m * 2 ^ e : ℚ) < (2 * leadingBit : ℕ) := by
      calc (m * 2 ^ e : ℚ) ≤ m := mul_le_of_le_one_right (Nat.cast_nonneg m) hpow
        _ < (2 * leadingBit : ℕ) := by exact_mod_cast h.1
    have hfloor : 0 ≤ (m * 2 ^ e : ℚ).floor := Int.floor_nonneg.2 hpos
    have hbound : (m * 2 ^ e : ℚ).floor < (2 * leadingBit : ℕ) :=
      Int.floor_lt.2 (by exact_mod_cast hlt)
    rw [← Int.toNat_of_nonneg hfloor]
    exact representable_of_lt (by omega)

theorem representable_integerPart (hx : x.isFinite = true) :
    Representable (integerPart x.value) := by
  cases x with
  | finite s m e h =>
    have hpos : (0 : ℚ) ≤ m * 2 ^ e := by positivity
    rw [integerPart]
    cases s with
    | false =>
      rw [value, if_neg hpos.not_gt]
      exact representable_floor h
    | true =>
      rw [value, neg_neg]
      split
      · exact (representable_floor h).neg
      · -- A value that is not below zero here is zero.
        rename_i hneg
        have hzero : (m * 2 ^ e : ℚ) = 0 := le_antisymm (by linarith) hpos
        rw [hzero, neg_zero]
        exact representable_of_lt (k := 0) (by decide)
  | _ => cases hx

theorem value_round_value (hx : x.isFinite = true) (negative : Bool) :
    (round x.value negative).isFinite = true ∧ (round x.value negative).value = x.value := by
  by_cases hzero : x.value = 0
  · rw [hzero, round_zero, zero_eq]
    exact ⟨rfl, by cases negative <;> simp [value]⟩
  · -- Then the sign of zero does not matter.
    have hback := round_value hx
    have hsame : round x.value negative = round x.value x.negative := by
      rw [round, round, if_neg hzero, if_neg hzero]
    rw [hsame, hback]
    exact ⟨hx, rfl⟩

theorem value_ofInt (h : Representable n) : (ofInt n).isFinite = true ∧ (ofInt n).value = n := by
  obtain ⟨x, hx, hvalue⟩ := h
  have hround := value_round_value hx false
  rw [hvalue] at hround
  exact hround

theorem integerPart_intCast (n : ℤ) : integerPart n = n := by
  have hfloor : ∀ k : ℤ, (k : ℚ).floor = k := fun k => Rat.floor_intCast k
  rw [integerPart, ← Int.cast_neg, hfloor, hfloor, neg_neg, ite_self]

/-- The bounds of a counter of at most 64 bits, which stand again when they have been rounded. -/
structure Bounds (low high : ℤ) : Prop where
  least_le : -9223372036854775808 ≤ low
  low_nonpos : low ≤ 0
  high_nonneg : 0 ≤ high
  le_greatest : high ≤ 18446744073709551615
  low_again : toIntWithin low high (ofInt low) = low
  high_again : toIntWithin low high (ofInt high) = high

theorem toIntWithin_ofInt (h : Representable n) (hlow : low ≤ n) (hhigh : n ≤ high) :
    toIntWithin low high (ofInt n) = n := by
  obtain ⟨hfinite, hvalue⟩ := value_ofInt h
  cases hx : ofInt n with
  | finite s m e hc =>
    rw [hx] at hvalue
    rw [toIntWithin, hvalue, integerPart_intCast, min_eq_right hhigh, max_eq_right hlow]
  | _ =>
    rw [hx] at hfinite
    cases hfinite

theorem Bounds.toIntWithin_again (h : Bounds low high) (x : Binary64) :
    toIntWithin low high (ofInt (toIntWithin low high x)) = toIntWithin low high x := by
  have hzero : Representable 0 := representable_of_lt (k := 0) (by decide)
  cases x with
  | nan => exact toIntWithin_ofInt hzero h.low_nonpos h.high_nonneg
  | infinity s =>
    cases s with
    | true => exact h.low_again
    | false => exact h.high_again
  | finite s m e hc =>
    have hpart : Representable (integerPart (value (.finite s m e hc))) :=
      representable_integerPart rfl
    rw [toIntWithin]
    generalize integerPart (value (.finite s m e hc)) = n at hpart ⊢
    obtain hn | hn := lt_or_ge n low
    · have hlow : max low (min high n) = low := by omega
      rw [hlow]
      exact h.low_again
    · obtain hn' | hn' := le_or_gt n high
      · have hmid : max low (min high n) = n := by omega
        rw [hmid]
        exact toIntWithin_ofInt hpart hn hn'
      · have hhigh : max low (min high n) = high := by
          have := h.low_nonpos
          have := h.high_nonneg
          omega
        rw [hhigh]
        exact h.high_again

end ActivityBoard.Binary64
