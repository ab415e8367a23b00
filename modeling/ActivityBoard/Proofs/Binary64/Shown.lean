import ActivityBoard.Proofs.Binary64.Monotone
import ActivityBoard.Proofs.Binary64.Nearest

/-!
The number that a text in digits is. That of the shortest digits is rounded to the number they are
shown of, that of a fixed count of places is nearest to it; so neither decreases where the number
grows.
-/
namespace ActivityBoard

namespace Json.Numeral

theorem exists_writes_shown (negative : Bool) (d : Decimal) :
    ∃ n : Numeral, n.negative = negative ∧ n.WellFormed ∧ n.exponent = none ∧
      n.chars = Layout.shown.write d ∧ n.decimal.value = d.value := by
  have hnone : ∀ c ∈ ([] : List Char), c.isDigit = true := fun c hc => by cases hc
  by_cases hc : d.coefficient = 0
  · refine ⟨⟨negative, ['0'], [], none⟩, rfl, ?_, rfl, (if_pos hc).symm, ?_⟩
    · exact ⟨List.cons_ne_nil _ _, fun _ => isDigit_of_mem_zero, fun _ => rfl, hnone⟩
    · simp [Decimal.value, decimal, hc, Nat.ofDigitChars_cons]
  · obtain ⟨digits, point, h, hvalue, hwrite⟩ := exists_significant hc
    have hwrite : Layout.shown.write d = Layout.shown.positionalText digits point := hwrite _
    rw [hvalue, hwrite]
    by_cases hpoint : point ≤ 0
    · have hn : Writes _ negative (Layout.shown.positionalText digits point) _ :=
        writes_below_one negative h hpoint
      exact ⟨_, rfl, hn.wellFormed, rfl, hn.chars_eq, hn.value_eq⟩
    · by_cases hlength : digits.length ≤ point.toNat
      · have hn := writes_integer negative h hlength (by omega)
        refine ⟨⟨negative, digits ++ List.replicate (point.toNat - digits.length) '0', [], none⟩,
          rfl, ?_, rfl, ?_, ?_⟩
        · exact ⟨hn.wellFormed.whole_ne_nil, hn.wellFormed.isDigit_whole, hn.wellFormed.leading,
            hnone⟩
        · rw [Layout.positionalText, if_neg hpoint, if_pos hlength]
          rfl
        · have hexponent :
              (point - digits.length : Int) = (point.toNat - digits.length : Nat) := by
            omega
          rw [Decimal.value, decimal, List.append_nil, Digits.ofDigitChars_append_zeros, hexponent,
            zpow_natCast]
          simp [mul_comm]
      · have hn : Writes _ negative (Layout.shown.positionalText digits point) _ :=
          writes_mixed negative h hlength (by omega)
        exact ⟨_, rfl, hn.wellFormed, rfl, hn.chars_eq, hn.value_eq⟩

end Json.Numeral

namespace Binary64

open Json

variable {x y : Binary64} {n : Numeral} {text : String} {places : ℕ}

/-- The number that a text in digits is; what is no number is read as zero. -/
def reading (text : String) : ℚ :=
  match readScalar text.toList with
  | some (.number n, _) => n.value
  | _ => 0

theorem reading_eq (h : n.WellFormed) (htext : text.toList = Decimal.signed n.negative n.chars) :
    reading text = n.value := by
  have hend : EndsNumber [] := fun c hc => by cases hc
  have hread := Numeral.readScalar_append h hend
  rw [List.append_nil, ← htext] at hread
  rw [reading, hread]

section Shortest

theorem toList_shown (hx : x.isFinite = true) :
    x.shown.toList = Decimal.signed x.negative (Layout.shown.write (x.shortest .up)) := by
  cases x with
  | finite s m e h => exact String.toList_ofList
  | _ => cases hx

theorem exists_numeral_of_shown (hx : x.isFinite = true) :
    ∃ n : Numeral, n.WellFormed ∧ n.exponent = none ∧ n.negative = x.negative ∧
      n.decimal.value = (x.shortest .up).value ∧
      x.shown.toList = Decimal.signed n.negative n.chars := by
  obtain ⟨n, hnegative, hn, hexponent, hchars, hvalue⟩ :=
    Numeral.exists_writes_shown x.negative (x.shortest .up)
  refine ⟨n, hn, hexponent, hnegative, hvalue, ?_⟩
  rw [toList_shown hx, hnegative, hchars]

theorem isPlain_shown (hx : x.isFinite = true) : IsPlain x.shown := by
  obtain ⟨n, hn, hexponent, -, -, htext⟩ := exists_numeral_of_shown hx
  exact ⟨n, hn, hexponent, htext⟩

theorem reading_shown (hx : x.isFinite = true) : reading x.shown =
    if x.negative then -(x.shortest .up).value else (x.shortest .up).value := by
  obtain ⟨n, hn, -, hnegative, hvalue, htext⟩ := exists_numeral_of_shown hx
  rw [reading_eq hn htext, Numeral.value, hnegative, hvalue]

theorem shortest_of_value_eq_zero (hx : x.isFinite = true) (h : x.value = 0) :
    x.shortest .up = ⟨0, 0⟩ := by
  have hzero := (isZero_iff hx).2 h
  cases x with
  | finite s m e h =>
    have hm : m = 0 := by simpa [isZero] using hzero
    subst m
    rfl
  | _ => cases hx

theorem round_reading_shown (hx : x.isFinite = true) :
    round (reading x.shown) x.negative = x := by
  have hback := readsBack_iff.1 (readsBack_shortest .up hx)
  rw [ofDecimal_eq_round] at hback
  change round (x.shortest .up).value false = x.abs at hback
  rw [reading_shown hx]
  cases hs : x.negative with
  | false =>
    rw [if_neg Bool.false_ne_true, hback]
    exact abs_of_not_negative hs
  | true =>
    rw [if_pos rfl]
    by_cases hv : (x.shortest .up).value = 0
    · rw [hv, round_zero] at hback
      rw [hv, neg_zero, round_zero, ← neg_abs hs, ← hback]
      rfl
    · rw [← neg_round hv false true, hback]
      exact neg_abs hs

theorem reading_shown_mono (hx : x.isFinite = true) (hy : y.isFinite = true)
    (h : x.value ≤ y.value) : reading x.shown ≤ reading y.shown := by
  have hrx := round_reading_shown hx
  have hry := round_reading_shown hy
  obtain heq | hlt := h.eq_or_lt
  · by_cases hzero : x.value = 0
    · rw [reading_shown hx, reading_shown hy, shortest_of_value_eq_zero hx hzero,
        shortest_of_value_eq_zero hy (heq ▸ hzero)]
      simp [Decimal.value]
    · have hxy : x = y := by
        rw [← round_value hx, ← round_value hy, negative_eq hzero, negative_eq (heq ▸ hzero), heq]
      rw [hxy]
  · -- Rounding would turn an order the other way round into one of the numbers.
    by_contra hle
    have hmono := value_round_mono (s := y.negative) (t := x.negative) (not_le.1 hle).le
      (hry.symm ▸ hy) (hrx.symm ▸ hx)
    rw [hry, hrx] at hmono
    exact hmono.not_gt hlt

end Shortest

section Fixed

theorem reading_toFixed_mono (hplaces : places ≤ 22) (hx : x.isFinite = true)
    (hy : y.isFinite = true) (h : x.value ≤ y.value) :
    reading (x.toFixed places) ≤ reading (y.toFixed places) := by
  obtain heq | hlt := h.eq_or_lt
  · rw [toFixed_congr hx hy heq]
  · have hscale : (0 : ℚ) < 10 ^ places := by positivity
    obtain ⟨m, a, hm, -, ha, haclose⟩ := exists_numeral_shown hx hplaces
    obtain ⟨n, b, hn, -, hb, hbclose⟩ := exists_numeral_shown hy hplaces
    have hab := le_of_abs_sub_le_half haclose hbclose (mul_lt_mul_of_pos_right hlt hscale)
    apply le_of_mul_le_mul_right _ hscale
    rw [reading_eq hm.wellFormed hm.toList_eq, reading_eq hn.wellFormed hn.toList_eq, ha, hb]
    exact_mod_cast hab

end Fixed

end Binary64

end ActivityBoard
