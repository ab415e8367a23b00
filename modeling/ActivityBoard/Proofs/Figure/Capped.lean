import ActivityBoard.Proofs.Binary64.Exact
import ActivityBoard.Proofs.Binary64.Shown
import Mathlib.Order.WithBot

/-!
Capped percentages. The cap compares the text, read again, with a hundred. Every text that is shown
is read, no roundings hide that it is above a hundred, and so a capped percentage reads as the
smaller of the two.
-/
namespace ActivityBoard

open Json

namespace Json.Numeral

theorem number_eq_round (n : Numeral) : n.number = Binary64.round n.value n.negative := by
  rw [number, Binary64.ofDecimal_eq_round, value]
  change (if n.negative then (Binary64.round n.decimal.value false).neg
    else Binary64.round n.decimal.value false) = _
  cases n.negative with
  | false => rfl
  | true =>
    rw [if_pos rfl, if_pos rfl]
    by_cases hzero : n.decimal.value = 0
    · rw [hzero, neg_zero, Binary64.round_zero, Binary64.round_zero]
      rfl
    · exact Binary64.neg_round hzero false true

end Json.Numeral

namespace Binary64

variable {x y : Binary64} {n : ℤ} {places : ℕ}

section Order

def extended : Binary64 → WithBot (WithTop ℚ)
  | .infinity true => ⊥
  | .infinity false => ((⊤ : WithTop ℚ) : WithBot (WithTop ℚ))
  | x => ((x.value : WithTop ℚ) : WithBot (WithTop ℚ))

theorem le_iff_extended_le (hx : x ≠ .nan) (hy : y ≠ .nan) : x ≤ y ↔ x.extended ≤ y.extended := by
  change le x y = true ↔ _
  cases x with
  | nan => exact absurd rfl hx
  | infinity s =>
    cases y with
    | nan => exact absurd rfl hy
    | infinity t => cases s <;> cases t <;> simp [le, extended]
    | finite => cases s <;> simp [le, extended]
  | finite =>
    cases y with
    | nan => exact absurd rfl hy
    | infinity t => cases t <;> simp [le, extended]
    | finite => simp [le, extended]

theorem lt_iff_not_le (hx : x ≠ .nan) (hy : y ≠ .nan) : x < y ↔ ¬ y ≤ x := by
  change lt x y = true ↔ ¬ le y x = true
  cases x with
  | nan => exact absurd rfl hx
  | infinity s =>
    cases y with
    | nan => exact absurd rfl hy
    | infinity t => cases s <;> cases t <;> decide
    | finite => cases s <;> simp [lt, le]
  | finite =>
    cases y with
    | nan => exact absurd rfl hy
    | infinity t => cases t <;> simp [lt, le]
    | finite => simp [lt, le]

theorem lt_iff_extended_lt (hx : x ≠ .nan) (hy : y ≠ .nan) : x < y ↔ x.extended < y.extended := by
  rw [lt_iff_not_le hx hy, le_iff_extended_le hy hx, not_le]

theorem ne_nan_of_finite (hx : x.isFinite = true) : x ≠ .nan := by
  rintro rfl
  cases hx

theorem ne_nan_of_le (h : x ≤ y) : x ≠ .nan ∧ y ≠ .nan := by
  change le x y = true at h
  constructor
  · rintro rfl
    cases h
  · rintro rfl
    cases x <;> cases h

theorem between_infinities (hx : x.isFinite = true) :
    .infinity true ≤ x ∧ x ≤ .infinity false := by
  cases x with
  | finite => exact ⟨rfl, rfl⟩
  | _ => cases hx

end Order

section Text

theorem ofText?_toFixed (hx : x.isFinite = true) (hplaces : places ≤ 22) : ∃ s,
    ofText? (x.toFixed places).toList = some (round (reading (x.toFixed places)) s) := by
  obtain ⟨n, -, hn, -⟩ := exists_numeral_shown hx hplaces
  refine ⟨n.negative, ?_⟩
  rw [reading_eq hn.wellFormed hn.toList_eq, hn.toList_eq, hn.wellFormed.spells.ofText?_signed,
    Numeral.number_eq_round]

theorem reading_toFixed_intCast (hx : x.isFinite = true) (hplaces : places ≤ 22)
    (h : x.value = n) : reading (x.toFixed places) = x.value := by
  have hscale : (10 ^ places : ℚ) ≠ 0 := by positivity
  obtain ⟨m, units, hm, -, hunits, hclose⟩ := exists_numeral_shown hx hplaces
  have hexact : units = n * 10 ^ places := by
    have hlt : |units - n * 10 ^ places| < 1 := by
      rw [h] at hclose
      exact_mod_cast hclose.trans_lt one_half_lt_one
    rw [Int.abs_lt_one_iff] at hlt
    omega
  rw [reading_eq hm.wellFormed hm.toList_eq]
  apply mul_right_cancel₀ hscale
  rw [hunits, hexact, h]
  push_cast
  rfl

/-- What is shown above an integer is at least twice as near to the number. -/
theorem two_mul_abs_reading_sub_le (hx : x.isFinite = true) (hplaces : places ≤ 22)
    (h : n < reading (x.toFixed places)) :
    2 * |reading (x.toFixed places) - x.value| ≤ reading (x.toFixed places) - n := by
  have hscale : (0 : ℚ) < 10 ^ places := by positivity
  obtain ⟨m, units, hm, -, hunits, hclose⟩ := exists_numeral_shown hx hplaces
  rw [reading_eq hm.wellFormed hm.toList_eq] at h ⊢
  -- It is above by a unit of the last decimal place, and from the number by half of one.
  have hnext : (n * 10 ^ places + 1 : ℚ) ≤ units := by
    have hlt := mul_lt_mul_of_pos_right h hscale
    rw [hunits] at hlt
    have hlt' : n * 10 ^ places < units := by exact_mod_cast hlt
    exact_mod_cast hlt'
  rw [← hunits, ← sub_mul, abs_mul, abs_of_pos hscale] at hclose
  rw [← hunits] at hnext
  apply le_of_mul_le_mul_right _ hscale
  linarith

end Text

end Binary64

namespace Figure

open Binary64

variable {x y : Binary64} {places : ℕ}

theorem exists_reading_eq_round (hx : x.isFinite = true) (hplaces : places ≤ 22) :
    ∃ s, reading ⟨x, places⟩ = round (Binary64.reading (x.toFixed places)) s := by
  obtain ⟨s, hs⟩ := ofText?_toFixed hx hplaces
  exact ⟨s, by rw [reading, text, hs, Option.getD_some]⟩

theorem ofText?_words : ofText? "NaN".toList = some .nan ∧
    ofText? "Infinity".toList = some (.infinity false) ∧
      ofText? "-Infinity".toList = some (.infinity true) := by
  decide +kernel

theorem ofText?_toFixed_of_not_finite (hx : x.isFinite = false) (places : ℕ) :
    ofText? (x.toFixed places).toList = some x := by
  cases x with
  | nan => exact ofText?_words.1
  | infinity s =>
    cases s with
    | false => exact ofText?_words.2.1
    | true => exact ofText?_words.2.2
  | finite => cases hx

theorem reading_of_not_finite (hx : x.isFinite = false) (places : ℕ) :
    reading ⟨x, places⟩ = x := by
  rw [reading, text, ofText?_toFixed_of_not_finite hx, Option.getD_some]

/-- Whatever is shown is read. -/
theorem ofText?_text (x : Binary64) (hplaces : places ≤ 22) :
    ofText? (text ⟨x, places⟩).toList = some (reading ⟨x, places⟩) := by
  obtain ⟨r, hr⟩ : ∃ r, ofText? (x.toFixed places).toList = some r := by
    cases hx : x.isFinite with
    | false => exact ⟨x, ofText?_toFixed_of_not_finite hx places⟩
    | true =>
      obtain ⟨s, hs⟩ := ofText?_toFixed hx hplaces
      exact ⟨_, hs⟩
  rw [reading, text, hr, Option.getD_some]

theorem finite_reading (hx : x.isFinite = true) (hplaces : places ≤ 22) :
    (reading ⟨x, places⟩).isFinite = true := by
  obtain ⟨n, hn⟩ | hlt := eq_intCast_or_lt hx
  · obtain ⟨s, hreading⟩ := exists_reading_eq_round hx hplaces
    rw [hreading, reading_toFixed_intCast hx hplaces hn]
    exact (value_round_value hx s).1
  · have hwithin : x.Within (52 : ℕ) := ⟨hx, hlt.le⟩
    exact (within_reading hwithin (by decide) places).finite

theorem reading_eq_nan_iff (hplaces : places ≤ 22) : reading ⟨x, places⟩ = .nan ↔ x = .nan := by
  cases hx : x.isFinite with
  | false => rw [reading_of_not_finite hx]
  | true =>
    exact iff_of_false (ne_nan_of_finite (finite_reading hx hplaces)) (ne_nan_of_finite hx)

theorem reading_mono_of_finite (hplaces : places ≤ 22) (hx : x.isFinite = true)
    (hy : y.isFinite = true) (h : x.value ≤ y.value) :
    reading ⟨x, places⟩ ≤ reading ⟨y, places⟩ := by
  have hfx := finite_reading hx hplaces
  have hfy := finite_reading hy hplaces
  rw [le_iff_value_le hfx hfy]
  obtain ⟨s, hrx⟩ := exists_reading_eq_round hx hplaces
  obtain ⟨t, hry⟩ := exists_reading_eq_round hy hplaces
  rw [hrx] at hfx ⊢
  rw [hry] at hfy ⊢
  exact value_round_mono (reading_toFixed_mono hplaces hx hy h) hfx hfy

theorem reading_mono (hplaces : places ≤ 22) (h : x ≤ y) :
    reading ⟨x, places⟩ ≤ reading ⟨y, places⟩ := by
  cases x with
  | nan => exact absurd rfl (ne_nan_of_le h).1
  | infinity s =>
    rw [reading_of_not_finite rfl]
    cases y with
    | nan => exact absurd rfl (ne_nan_of_le h).2
    | infinity t =>
      rw [reading_of_not_finite rfl]
      exact h
    | finite =>
      cases s with
      | true => exact (between_infinities (finite_reading rfl hplaces)).1
      | false => cases h
  | finite =>
    cases y with
    | nan => exact absurd rfl (ne_nan_of_le h).2
    | infinity t =>
      rw [reading_of_not_finite (x := .infinity t) rfl]
      cases t with
      | true => cases h
      | false => exact (between_infinities (finite_reading rfl hplaces)).2
    | finite => exact reading_mono_of_finite hplaces rfl rfl (of_decide_eq_true h)

section Hundred

theorem lastPlace_hundred : lastPlace (100 : Binary64).value = -46 := by decide +kernel

/-- A text above a hundred is above it by more than half of the last place that a reading has there,
as the number is above it by a whole one. -/
theorem unit_lt_of_hundred_lt (hx : x.isFinite = true) (hplaces : places ≤ 22)
    (h : 100 < Binary64.reading (x.toFixed places)) :
    2 ^ (-46 : ℤ) < 2 * (Binary64.reading (x.toFixed places) - 100) := by
  have hclose := two_mul_abs_reading_sub_le (n := 100) hx hplaces (by exact_mod_cast h)
  have hlow := neg_abs_le (Binary64.reading (x.toFixed places) - x.value)
  have hhigh := le_abs_self (Binary64.reading (x.toFixed places) - x.value)
  push_cast at hclose
  have habove : 100 < x.value := by linarith
  rw [← value_hundred.2] at habove
  have hgap := add_unit_le value_hundred.1 hx (by rw [value_hundred.2]; norm_num) habove
  rw [lastPlace_hundred, value_hundred.2] at hgap
  have hunit : (0 : ℚ) < 2 ^ (-46 : ℤ) := zpow_pos two_pos _
  linarith

/-- Reading the text rounds it, but not to a hundred from above. -/
theorem hundred_lt_reading_iff (hx : x.isFinite = true) (hplaces : places ≤ 22) :
    100 < reading ⟨x, places⟩ ↔ 100 < Binary64.reading (x.toFixed places) := by
  have hfinite := finite_reading hx hplaces
  rw [lt_iff_value_lt value_hundred.1 hfinite, value_hundred.2]
  obtain ⟨s, hreading⟩ := exists_reading_eq_round hx hplaces
  rw [hreading] at hfinite ⊢
  constructor
  · intro h
    by_contra hle
    obtain ⟨hround, hvalue⟩ := value_round_value value_hundred.1 false
    rw [value_hundred.2] at hround hvalue
    have hmono := value_round_mono (not_lt.1 hle) hfinite hround
    rw [hvalue] at hmono
    exact hmono.not_gt h
  · intro h
    rw [← value_hundred.2]
    apply lt_value_round value_hundred.1 (by rw [value_hundred.2]; norm_num) _ hfinite
    rw [lastPlace_hundred, value_hundred.2]
    exact unit_lt_of_hundred_lt hx hplaces h

end Hundred

section Capped

theorem text_hundred : text ⟨100, 0⟩ = "100" := by decide +kernel

theorem cappedPercent_cases (x : Binary64) (places : ℕ) :
    100 < reading ⟨x, places⟩ ∧ cappedPercent x places = ⟨100, 0⟩ ∨
      ¬100 < reading ⟨x, places⟩ ∧ cappedPercent x places = ⟨x, places⟩ := by
  rw [cappedPercent]
  split
  · rename_i h
    exact .inl ⟨h, rfl⟩
  · rename_i h
    exact .inr ⟨h, rfl⟩

theorem not_lt_nan (x : Binary64) : ¬x < .nan := by
  cases x <;> exact Bool.false_ne_true

theorem extended_reading_cappedPercent (hplaces : places ≤ 22) (hx : x ≠ .nan) :
    (cappedPercent x places).reading ≠ .nan ∧
      (cappedPercent x places).reading.extended =
        min (reading ⟨x, places⟩).extended (100 : Binary64).extended := by
  have hundred : (100 : Binary64) ≠ .nan := ne_nan_of_finite value_hundred.1
  have hreading := mt (reading_eq_nan_iff hplaces).1 hx
  obtain ⟨h, hcapped⟩ | ⟨h, hcapped⟩ := cappedPercent_cases x places
  · rw [lt_iff_extended_lt hundred hreading] at h
    rw [hcapped, reading_hundred, min_eq_right h.le]
    exact ⟨hundred, rfl⟩
  · rw [lt_iff_extended_lt hundred hreading, not_lt] at h
    rw [hcapped, min_eq_left h]
    exact ⟨hreading, rfl⟩

theorem cappedPercent_mono (hplaces : places ≤ 22) (h : x ≤ y) :
    (cappedPercent x places).reading ≤ (cappedPercent y places).reading := by
  obtain ⟨hx, hy⟩ := ne_nan_of_le h
  obtain ⟨hcx, hminx⟩ := extended_reading_cappedPercent hplaces hx
  obtain ⟨hcy, hminy⟩ := extended_reading_cappedPercent hplaces hy
  have hmono := reading_mono hplaces h
  rw [le_iff_extended_le (ne_nan_of_le hmono).1 (ne_nan_of_le hmono).2] at hmono
  rw [le_iff_extended_le hcx hcy, hminx, hminy]
  exact min_le_min_right _ hmono

/-- A capped percentage is shown as its value is, unless that reads above a hundred; then it is
shown as a hundred. So it reads as no number above a hundred, and does not decrease where the value
grows. -/
theorem capped_percent_readings (hplaces : places ≤ 22) :
    (∀ x : Binary64,
      ofText? (x.toFixed places).toList = some (reading ⟨x, places⟩) ∧
      (x.isFinite = true →
        (100 < reading ⟨x, places⟩ ↔ 100 < Binary64.reading (x.toFixed places))) ∧
      (cappedPercent x places).text =
        if 100 < reading ⟨x, places⟩ then "100" else x.toFixed places) ∧
    (∀ x : Binary64,
      ofText? (cappedPercent x places).text.toList = some (cappedPercent x places).reading ∧
      ((cappedPercent x places).reading = .nan ↔ x = .nan) ∧
      (x ≠ .nan → (cappedPercent x places).reading ≤ 100)) ∧
    ∀ x y : Binary64, x ≤ y →
      (cappedPercent x places).reading ≤ (cappedPercent y places).reading := by
  refine ⟨fun x => ⟨ofText?_text x hplaces, fun hx => hundred_lt_reading_iff hx hplaces, ?_⟩,
    fun x => ⟨?_, ⟨?_, ?_⟩, ?_⟩, fun x y => cappedPercent_mono hplaces⟩
  · obtain ⟨h, hcapped⟩ | ⟨h, hcapped⟩ := cappedPercent_cases x places
    · rw [if_pos h, hcapped, text_hundred]
    · rw [if_neg h, hcapped, text]
  · obtain ⟨-, hcapped⟩ | ⟨-, hcapped⟩ := cappedPercent_cases x places
    · rw [hcapped]
      exact ofText?_text 100 (by decide)
    · rw [hcapped]
      exact ofText?_text x hplaces
  · intro hreading
    by_contra hx
    exact (extended_reading_cappedPercent hplaces hx).1 hreading
  · rintro rfl
    have hnan : reading ⟨.nan, places⟩ = .nan := reading_of_not_finite rfl places
    rw [cappedPercent, hnan, if_neg (not_lt_nan 100), hnan]
  · intro hx
    obtain ⟨hcapped, hmin⟩ := extended_reading_cappedPercent hplaces hx
    rw [le_iff_extended_le hcapped (ne_nan_of_finite value_hundred.1), hmin]
    exact min_le_right _ _

theorem capped_percent_readings_near_hundred : 1 ≤ 22 ∧ (100.04 : Binary64) ≤ 100.06 ∧
    (cappedPercent 100.04 1).text = "100.0" ∧ (cappedPercent 100.06 1).text = "100" ∧
    100 < Binary64.reading ((100.06 : Binary64).toFixed 1) ∧
    (cappedPercent 100.06 1).reading ≤ 100 ∧
    (cappedPercent 100.04 1).reading ≤ (cappedPercent 100.06 1).reading := by
  have hplaces : 1 ≤ 22 := by decide
  have hle : (100.04 : Binary64) ≤ 100.06 := by decide +kernel
  have hlow : ¬100 < reading ⟨100.04, 1⟩ ∧ (100.04 : Binary64).toFixed 1 = "100.0" := by
    decide +kernel
  have hhigh : 100 < reading ⟨100.06, 1⟩ ∧ (100.06 : Binary64).isFinite = true := by
    decide +kernel
  obtain ⟨htext, hreading, hmono⟩ := capped_percent_readings hplaces
  refine ⟨hplaces, hle, ?_, ?_, ((htext _).2.1 hhigh.2).1 hhigh.1,
    (hreading _).2.2 (ne_nan_of_finite hhigh.2), hmono _ _ hle⟩
  · rw [(htext _).2.2, if_neg hlow.1, hlow.2]
  · rw [(htext _).2.2, if_pos hhigh.1]

end Capped

end Figure

end ActivityBoard
