import ActivityBoard.Proofs.Binary64.Rounding

/-!
Magnitudes of numbers against powers of two. Rounding does not carry a number across a power of two
that it can represent, so bounds by such powers hold of rounded products, quotients and differences
as they do of exact ones.
-/
namespace ActivityBoard.Binary64

variable {x y : Binary64} {q : ℚ} {a b k : ℤ} {negative : Bool}

section Nearest

theorem nearestEven_le {n : ℕ} (h : q ≤ n) : nearestEven q ≤ n := by
  have hbelow : q.floor.toNat ≤ n := by
    have hfloor : q.floor ≤ (n : ℤ) := by exact_mod_cast (Int.floor_le q).trans h
    omega
  obtain hlt | heq := hbelow.lt_or_eq
  · rw [nearestEven]
    split
    · exact hbelow
    · split <;> omega
  · -- Nothing is left of `q` above its integer part.
    have hrest : q - n < 1 / 2 := by linarith
    rw [nearestEven, heq, if_pos hrest]

theorem le_nearestEven {n : ℕ} (h : n ≤ q) : n ≤ nearestEven q := by
  have hfloor : (n : ℤ) ≤ q.floor := Int.le_floor.2 (by exact_mod_cast h)
  rw [nearestEven]
  split
  · omega
  · split <;> omega

/-- What a positive rational becomes when it is rounded, however great it is. -/
def nearest (q : ℚ) : ℚ := nearestEven (q * 2 ^ (-lastPlace q)) * 2 ^ lastPlace q

theorem scaled_le_iff {e : ℤ} {r : ℚ} : q * 2 ^ (-e) ≤ r ↔ q ≤ r * 2 ^ e := by
  rw [zpow_neg, ← div_eq_mul_inv, div_le_iff₀ (zpow_pos two_pos e)]

theorem le_scaled_iff {e : ℤ} {r : ℚ} : r ≤ q * 2 ^ (-e) ↔ r * 2 ^ e ≤ q := by
  rw [zpow_neg, ← div_eq_mul_inv, le_div_iff₀ (zpow_pos two_pos e)]

theorem exists_units {e : ℤ} (h : e ≤ k) : ∃ n : ℕ, (2 : ℚ) ^ k = n * 2 ^ e := by
  obtain ⟨d, hd⟩ := Int.le.dest h
  refine ⟨2 ^ d, ?_⟩
  rw [← hd, add_comm, zpow_add₀ two_ne_zero, zpow_natCast, Nat.cast_pow, Nat.cast_ofNat]

theorem nearest_le (hq : 0 < q) (h : q ≤ 2 ^ k) (hk : -1074 ≤ k) : nearest q ≤ 2 ^ k := by
  have hlog : log2 q ≤ k :=
    (zpow_le_zpow_iff_right₀ one_lt_two).1 (((le_log2_iff hq).1 le_rfl).trans h)
  have hplace : lastPlace q ≤ k := by
    rw [lastPlace]
    omega
  obtain ⟨n, hn⟩ := exists_units hplace
  rw [hn] at h ⊢
  have hnearest : (nearestEven (q * 2 ^ (-lastPlace q)) : ℚ) ≤ n := by
    exact_mod_cast nearestEven_le (scaled_le_iff.2 h)
  exact mul_le_mul_of_nonneg_right hnearest (zpow_pos two_pos _).le

theorem le_nearest_of_place (h : 2 ^ k ≤ q) (hk : lastPlace q ≤ k) : 2 ^ k ≤ nearest q := by
  obtain ⟨n, hn⟩ := exists_units hk
  rw [hn] at h ⊢
  have hnearest : (n : ℚ) ≤ nearestEven (q * 2 ^ (-lastPlace q)) := by
    exact_mod_cast le_nearestEven (le_scaled_iff.2 h)
  exact mul_le_mul_of_nonneg_right hnearest (zpow_pos two_pos _).le

theorem le_nearest (hq : 0 < q) (h : 2 ^ k ≤ q) (hk : -1074 ≤ k) : 2 ^ k ≤ nearest q := by
  obtain hplace | hplace := le_or_gt (lastPlace q) k
  · exact le_nearest_of_place h hplace
  · -- The power lies below the last place, which `q` reaches as well.
    have hlog : lastPlace q ≤ log2 q := by
      rw [lastPlace] at hplace ⊢
      omega
    have hreach := le_nearest_of_place ((le_log2_iff hq).1 hlog) le_rfl
    exact (zpow_le_zpow_right₀ one_le_two hplace.le).trans hreach

end Nearest

section Rounded

theorem nearestEven_scaled_le (hq : 0 < q) :
    nearestEven (q * 2 ^ (-lastPlace q)) ≤ 2 * leadingBit := by
  have hlog : q < 2 ^ (log2 q + 1) := (log2_lt_iff hq).1 (Int.lt_succ _)
  have hplace : log2 q + 1 ≤ 53 + lastPlace q := by
    rw [lastPlace]
    omega
  apply nearestEven_le
  rw [scaled_le_iff]
  calc q ≤ 2 ^ (53 + lastPlace q) :=
        hlog.le.trans (zpow_le_zpow_right₀ one_le_two hplace)
    _ = (2 * leadingBit : ℕ) * 2 ^ lastPlace q := by
        rw [zpow_add₀ two_ne_zero]
        norm_num

theorem leadingBit_le_nearestEven (hq : 0 < q) (h : lastPlace q ≠ -1074) :
    leadingBit ≤ nearestEven (q * 2 ^ (-lastPlace q)) := by
  have hplace : 52 + lastPlace q = log2 q := by
    rw [lastPlace] at h ⊢
    omega
  apply le_nearestEven
  rw [le_scaled_iff]
  calc (leadingBit : ℚ) * 2 ^ lastPlace q = 2 ^ (52 + lastPlace q) := by
        rw [zpow_add₀ two_ne_zero]
        norm_num
    _ ≤ q := by rw [hplace]; exact (le_log2_iff hq).1 le_rfl

theorem assemble_cases (negative : Bool) (m : ℕ) (e : ℤ) :
    assemble negative m e = .infinity negative ∨
      ∃ h, assemble negative m e = .finite negative m e h := by
  rw [assemble]
  split
  · rename_i h
    exact .inr ⟨h, rfl⟩
  · exact .inl rfl

theorem abs_value_finite {m : ℕ} {e : ℤ} (h : Canonical m e) :
    |value (.finite negative m e h)| = m * 2 ^ e := by
  have hpos : (0 : ℚ) ≤ m * 2 ^ e := mul_nonneg (Nat.cast_nonneg m) (zpow_pos two_pos e).le
  cases negative with
  | false => rw [value, abs_of_nonneg hpos]
  | true => rw [value, abs_neg, abs_of_nonneg hpos]

theorem roundMagnitude_cases (negative : Bool) (q : ℚ) :
    roundMagnitude negative q = .infinity negative ∨
      (roundMagnitude negative q).isFinite = true ∧
        |(roundMagnitude negative q).value| = nearest q := by
  have hcarry : ((2 * leadingBit : ℕ) : ℚ) * 2 ^ lastPlace q =
      leadingBit * 2 ^ (lastPlace q + 1) := by
    rw [zpow_add_one₀ two_ne_zero]
    push_cast
    ring
  rw [roundMagnitude, nearest]
  split
  · rename_i hfull
    obtain hinfinity | ⟨h, hfinite⟩ := assemble_cases negative leadingBit (lastPlace q + 1)
    · exact .inl hinfinity
    · rw [hfinite, abs_value_finite, hfull, hcarry]
      exact .inr ⟨rfl, rfl⟩
  · obtain hinfinity | ⟨h, hfinite⟩ := assemble_cases negative _ (lastPlace q)
    · exact .inl hinfinity
    · rw [hfinite, abs_value_finite]
      exact .inr ⟨rfl, rfl⟩

theorem isFinite_roundMagnitude (negative : Bool) (hq : 0 < q) (h : q ≤ 2 ^ (1023 : ℤ)) :
    (roundMagnitude negative q).isFinite = true := by
  have hlog : log2 q ≤ 1023 :=
    (zpow_le_zpow_iff_right₀ one_lt_two).1 (((le_log2_iff hq).1 le_rfl).trans h)
  have hleast : -1074 ≤ lastPlace q := le_max_left ..
  have hplace : lastPlace q ≤ 971 := by
    rw [lastPlace]
    omega
  rw [roundMagnitude]
  split
  · rename_i hfull
    -- At the last place that there is, a carry would have made it more than `2^1023`.
    have hcarry : lastPlace q ≤ 970 := by
      by_contra hlast
      have hnearest := nearest_le hq h (by norm_num)
      have he : lastPlace q = 971 := by omega
      rw [nearest, hfull, he, ← two_zpow_sub_mul 1023 971] at hnearest
      have hunits := le_of_mul_le_mul_right hnearest (zpow_pos two_pos 971)
      norm_num at hunits
    rw [assemble, dif_pos ⟨by decide, by omega, by omega, .inl le_rfl⟩]
    rfl
  · rename_i hfull
    have hcanonical : Canonical (nearestEven (q * 2 ^ (-lastPlace q))) (lastPlace q) := by
      refine ⟨lt_of_le_of_ne (nearestEven_scaled_le hq) hfull, hleast, hplace, ?_⟩
      by_cases he : lastPlace q = -1074
      · exact .inr he
      · exact .inl (leadingBit_le_nearestEven hq he)
    rw [assemble, dif_pos hcanonical]
    rfl

end Rounded

/-- The power `2^k` is a number, and rounding does not carry across it. -/
def InRange (k : ℤ) : Prop := -1074 ≤ k ∧ k ≤ 1023

instance : DecidablePred InRange := fun k => inferInstanceAs (Decidable (-1074 ≤ k ∧ k ≤ 1023))

/-- Finite, and not above `2^k` in magnitude. -/
structure Within (k : ℤ) (x : Binary64) : Prop where
  finite : x.isFinite = true
  le : |x.value| ≤ 2 ^ k

/-- Not below `2^k` in magnitude, as the infinities are. -/
def Reaches (k : ℤ) : Binary64 → Prop
  | .nan => False
  | .infinity _ => True
  | x@(.finite ..) => 2 ^ k ≤ |x.value|

/-- Positive, between these powers of two. -/
structure Between (low high : ℤ) (x : Binary64) : Prop extends Within high x where
  reaches : x.Reaches low
  nonneg : 0 ≤ x.value

section Bounds

theorem Within.mono (h : x.Within a) (hab : a ≤ b) : x.Within b :=
  ⟨h.finite, h.le.trans (zpow_le_zpow_right₀ one_le_two hab)⟩

theorem Reaches.mono (h : x.Reaches b) (hab : a ≤ b) : x.Reaches a := by
  cases x with
  | nan => exact h
  | infinity s => trivial
  | finite s m e hc => exact (zpow_le_zpow_right₀ one_le_two hab).trans h

theorem reaches_iff_of_finite (h : x.isFinite = true) : x.Reaches k ↔ 2 ^ k ≤ |x.value| := by
  cases x with
  | finite s m e hc => rfl
  | _ => cases h

theorem Reaches.value_ne_zero (h : x.Reaches k) (hx : x.isFinite = true) : x.value ≠ 0 :=
  abs_pos.1 ((zpow_pos two_pos k).trans_le ((reaches_iff_of_finite hx).1 h))

theorem isFinite_of_isZero (h : x.isZero = true) : x.isFinite = true := by
  cases x with
  | finite s m e hc => rfl
  | _ => cases h

theorem isZero_iff (hx : x.isFinite = true) : x.isZero = true ↔ x.value = 0 := by
  cases x with
  | finite s m e h =>
    have hne : (2 : ℚ) ^ e ≠ 0 := zpow_ne_zero e two_ne_zero
    cases s <;> simp [isZero, value, hne]
  | _ => cases hx

theorem Between.pos (h : x.Between a b) : 0 < x.value :=
  h.nonneg.lt_of_ne' (h.reaches.value_ne_zero h.finite)

theorem Reaches.isZero_eq (h : x.Reaches k) : x.isZero = false := by
  cases x with
  | finite s m e hc =>
    rw [Bool.eq_false_iff]
    intro hz
    exact h.value_ne_zero rfl ((isZero_iff rfl).1 hz)
  | _ => rfl

theorem within_zero (negative : Bool) (k : ℤ) : (zero negative).Within k := by
  rw [zero_eq]
  refine ⟨rfl, ?_⟩
  rw [abs_value_finite, Nat.cast_zero, zero_mul]
  exact (zpow_pos two_pos k).le

theorem round_cases (q : ℚ) (negative : Bool) : q = 0 ∧ round q negative = zero negative ∨
    0 < |q| ∧ ∃ s, round q negative = roundMagnitude s |q| := by
  obtain hneg | rfl | hpos := lt_trichotomy q 0
  · exact .inr ⟨abs_pos.2 hneg.ne, true, by rw [round_of_neg hneg, abs_of_neg hneg]⟩
  · exact .inl ⟨rfl, round_zero negative⟩
  · exact .inr ⟨abs_pos.2 hpos.ne', false, by rw [round_of_pos hpos, abs_of_pos hpos]⟩

theorem within_round (h : |q| ≤ 2 ^ k) (hk : InRange k) (negative : Bool) :
    (round q negative).Within k := by
  obtain ⟨-, hround⟩ | ⟨hq, s, hround⟩ := round_cases q negative
  · rw [hround]
    exact within_zero negative k
  · have hfinite := isFinite_roundMagnitude s hq
      (h.trans (zpow_le_zpow_right₀ one_le_two hk.2))
    rw [hround]
    refine ⟨hfinite, ?_⟩
    obtain hinfinity | ⟨-, hvalue⟩ := roundMagnitude_cases s |q|
    · rw [hinfinity] at hfinite
      cases hfinite
    · rw [hvalue]
      exact nearest_le hq h hk.1

theorem reaches_round (h : 2 ^ k ≤ |q|) (hk : InRange k) (negative : Bool) :
    (round q negative).Reaches k := by
  obtain ⟨rfl, -⟩ | ⟨hq, s, hround⟩ := round_cases q negative
  · rw [abs_zero] at h
    exact absurd h (zpow_pos two_pos k).not_ge
  · rw [hround]
    obtain hinfinity | ⟨hfinite, hvalue⟩ := roundMagnitude_cases s |q|
    · rw [hinfinity]
      trivial
    · rw [reaches_iff_of_finite hfinite, hvalue]
      exact le_nearest hq h hk.1

theorem value_assemble_false_nonneg (m : ℕ) (e : ℤ) : 0 ≤ (assemble false m e).value := by
  obtain hinfinity | ⟨h, hfinite⟩ := assemble_cases false m e
  · rw [hinfinity]
    exact le_rfl
  · rw [hfinite]
    exact mul_nonneg (Nat.cast_nonneg m) (zpow_pos two_pos e).le

theorem value_round_nonneg (h : 0 ≤ q) (negative : Bool) : 0 ≤ (round q negative).value := by
  obtain rfl | hpos := h.eq_or_lt
  · rw [round_zero, zero_eq]
    cases negative <;> simp [value]
  · rw [round_of_pos hpos, roundMagnitude]
    split <;> exact value_assemble_false_nonneg ..

end Bounds

section Operations

theorem mul_of_finite (hx : x.isFinite = true) (hy : y.isFinite = true) :
    x * y = round (x.value * y.value) (x.negative ^^ y.negative) := by
  cases x with
  | finite s m e h =>
    cases y with
    | finite t n f h' => rfl
    | _ => cases hy
  | _ => cases hx

theorem div_of_finite (hx : x.isFinite = true) (hy : y.isFinite = true) (hne : y.value ≠ 0) :
    x / y = round (x.value / y.value) (x.negative ^^ y.negative) := by
  have hzero : y.isZero = false := by
    rw [Bool.eq_false_iff]
    exact fun hz => hne ((isZero_iff hy).1 hz)
  cases x with
  | finite s m e h =>
    cases y with
    | finite t n f h' => exact if_neg (by rw [hzero]; decide)
    | _ => cases hy
  | _ => cases hx

theorem value_neg (x : Binary64) : x.neg.value = -x.value := by
  cases x with
  | finite s m e h => cases s <;> simp [neg, value]
  | _ => simp [neg, value]

theorem isFinite_neg (x : Binary64) : x.neg.isFinite = x.isFinite := by
  cases x <;> rfl

theorem add_of_finite (hx : x.isFinite = true) (hy : y.isFinite = true) :
    x + y = round (x.value + y.value) (x.negative && y.negative) := by
  cases x with
  | finite s m e h =>
    cases y with
    | finite t n f h' => rfl
    | _ => cases hy
  | _ => cases hx

theorem Within.mul (hx : x.Within a) (hy : y.Within b) (hk : InRange (a + b)) :
    (x * y).Within (a + b) := by
  rw [mul_of_finite hx.finite hy.finite]
  apply within_round _ hk
  rw [abs_mul, zpow_add₀ two_ne_zero]
  exact mul_le_mul hx.le hy.le (abs_nonneg _) (zpow_pos two_pos a).le

theorem Within.add (hx : x.Within k) (hy : y.Within k) (hk : InRange (k + 1)) :
    (x + y).Within (k + 1) := by
  rw [add_of_finite hx.finite hy.finite]
  apply within_round _ hk
  calc |x.value + y.value| ≤ |x.value| + |y.value| := abs_add_le ..
    _ ≤ 2 ^ k + 2 ^ k := add_le_add hx.le hy.le
    _ = 2 ^ (k + 1) := by rw [zpow_add_one₀ two_ne_zero, mul_two]

theorem Within.neg (hx : x.Within k) : x.neg.Within k := by
  refine ⟨(isFinite_neg x).trans hx.finite, ?_⟩
  rw [value_neg, abs_neg]
  exact hx.le

theorem Within.sub (hx : x.Within k) (hy : y.Within k) (hk : InRange (k + 1)) :
    (x - y).Within (k + 1) :=
  hx.add hy.neg hk

theorem Within.div (hx : x.Within a) (hy : y.Reaches b) (hk : InRange (a - b)) :
    (x / y).Within (a - b) := by
  cases y with
  | nan => exact hy.elim
  | infinity t =>
    -- A finite number is nothing against an infinity.
    cases x with
    | finite s m e h => exact within_zero _ _
    | _ => cases hx.finite
  | finite t n f h' =>
    rw [div_of_finite hx.finite rfl (hy.value_ne_zero rfl)]
    apply within_round _ hk
    rw [abs_div, zpow_sub₀ two_ne_zero]
    exact div_le_div₀ (zpow_pos two_pos a).le hx.le (zpow_pos two_pos b) hy

theorem Reaches.mul (hx : x.Reaches a) (hy : y.Reaches b) (hk : InRange (a + b)) :
    (x * y).Reaches (a + b) := by
  cases x with
  | nan => exact hx.elim
  | infinity s =>
    cases y with
    | nan => exact hy.elim
    | infinity t => trivial
    | finite t n f h' =>
      change Reaches _ (if isZero (.finite t n f h') then _ else _)
      rw [hy.isZero_eq]
      trivial
  | finite s m e h =>
    cases y with
    | nan => exact hy.elim
    | infinity t =>
      change Reaches _ (if isZero (.finite s m e h) then _ else _)
      rw [hx.isZero_eq]
      trivial
    | finite t n f h' =>
      rw [mul_of_finite rfl rfl]
      apply reaches_round _ hk
      rw [abs_mul, zpow_add₀ two_ne_zero]
      exact mul_le_mul hx hy (zpow_pos two_pos b).le (abs_nonneg _)

/-- Where the divisor is zero the quotient is infinite. -/
theorem Reaches.div (hx : x.Reaches a) (hy : y.Within b) (hk : InRange (a - b)) :
    (x / y).Reaches (a - b) := by
  cases y with
  | finite t n f h' =>
    cases x with
    | nan => exact hx.elim
    | infinity s => trivial
    | finite s m e h =>
      by_cases hz : isZero (.finite t n f h') = true
      · change Reaches _ (if isZero (.finite t n f h') then _ else _)
        rw [if_pos hz, hx.isZero_eq]
        trivial
      · have hne := fun h0 => hz ((isZero_iff rfl).2 h0)
        rw [div_of_finite rfl rfl hne]
        apply reaches_round _ hk
        rw [abs_div, zpow_sub₀ two_ne_zero]
        exact div_le_div₀ (abs_nonneg _) hx (abs_pos.2 hne) hy.le
  | _ => cases hy.finite

variable {c d : ℤ}

theorem Between.mul (hx : x.Between a b) (hy : y.Between c d) (hlow : InRange (a + c))
    (hhigh : InRange (b + d)) : (x * y).Between (a + c) (b + d) where
  toWithin := hx.toWithin.mul hy.toWithin hhigh
  reaches := hx.reaches.mul hy.reaches hlow
  nonneg := by
    rw [mul_of_finite hx.finite hy.finite]
    exact value_round_nonneg (mul_nonneg hx.nonneg hy.nonneg) _

theorem Between.div (hx : x.Between a b) (hy : y.Between c d) (hlow : InRange (a - d))
    (hhigh : InRange (b - c)) : (x / y).Between (a - d) (b - c) where
  toWithin := hx.toWithin.div hy.reaches hhigh
  reaches := hx.reaches.div hy.toWithin hlow
  nonneg := by
    rw [div_of_finite hx.finite hy.finite hy.pos.ne']
    exact value_round_nonneg (div_nonneg hx.nonneg hy.nonneg) _

end Operations

section Integers

theorem within_ofInt {n : ℤ} {k : ℕ} (h : |n| ≤ 2 ^ k) (hk : InRange k) : (ofInt n).Within k := by
  apply within_round _ hk
  exact_mod_cast h

theorem reaches_ofInt {n : ℤ} (h : n ≠ 0) : (ofInt n).Reaches 0 := by
  apply reaches_round _ (by decide)
  rw [zpow_zero]
  exact_mod_cast Int.one_le_abs h

theorem within_ofNat {n k : ℕ} (h : n ≤ 2 ^ k) (hk : InRange k) : (ofNat n).Within k := by
  apply within_ofInt _ hk
  rw [Nat.abs_cast]
  exact_mod_cast h

theorem reaches_ofNat {n : ℕ} (h : n ≠ 0) : (ofNat n).Reaches 0 :=
  reaches_ofInt (Int.natCast_ne_zero.2 h)

theorem between_ofNat {n k : ℕ} (hne : n ≠ 0) (h : n ≤ 2 ^ k) (hk : InRange k) :
    (ofNat n).Between 0 k where
  toWithin := within_ofNat h hk
  reaches := reaches_ofNat hne
  nonneg := value_round_nonneg (by exact_mod_cast Nat.zero_le n) _

end Integers

end ActivityBoard.Binary64
